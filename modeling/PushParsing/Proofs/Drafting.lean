import PushParsing.Proofs.Derivation

/-!
# What calls make of a draft

A call hands out the next place or fills one that was declared, and a call that fails does nothing.
So a draft holds, place by place, what it was given by the calls that went well. It is accepted
exactly if every place is filled and every reference leads to a place; if not, the first bad place is
to blame.
-/
namespace PushParsing

variable {κ α : Type}

section Blame

/-- Whether a place can go into a grammar with the given number of places: it is filled, and what its
parser refers to are places. -/
def Slot.Complete (count : Nat) (slot : Slot κ) : Prop :=
  ∃ p, slot.parser = some p ∧ ∀ q ∈ p.references, q < count

/-- What is wrong with a place. -/
inductive Slot.Faulty (count : Nat) (id : ParserId) : Slot κ → GrammarError → Prop
  | undefined {name : String} : Faulty count id ⟨some name, none⟩ (.undefinedRule name)
  | astray {name : Option String} {p : Parser κ} {before after : List ParserId} {q : ParserId} :
      p.references = before ++ q :: after → (∀ r ∈ before, r < count) → count ≤ q →
      Faulty count id ⟨name, some p⟩ (.unknownParser q id)

/-- Only a declared place lacks a parser, and that has a name. -/
def Slot.Named (slot : Slot κ) : Prop :=
  slot.parser = none → slot.name.isSome

namespace Draft

theorem complete_iff {count : Nat} (id : ParserId) {slot : Slot κ} :
    slot.Complete count ↔ ∃ r, checkSlot count id slot = .ok r := by
  constructor
  · obtain ⟨name, parser⟩ := slot
    rintro ⟨p, rfl, href⟩
    exact ⟨⟨name, p⟩, checkSlot_eq_ok_iff.2 ⟨rfl, href⟩⟩
  · rintro ⟨r, hr⟩
    obtain ⟨rfl, href⟩ := checkSlot_eq_ok_iff.1 hr
    exact ⟨r.parser, rfl, href⟩

theorem checkSlot_eq_error_iff {count : Nat} {id : ParserId} {slot : Slot κ} {e : GrammarError}
    (h : slot.Named) : checkSlot count id slot = .error e ↔ slot.Faulty count id e := by
  obtain ⟨name, parser⟩ := slot
  cases parser with
  | none =>
    obtain ⟨name, rfl⟩ := Option.isSome_iff_exists.1 (h rfl)
    simp only [checkSlot, Option.getD_some, Except.error.injEq]
    constructor
    · rintro rfl
      exact .undefined
    · rintro ⟨⟩
      rfl
  | some p =>
    constructor
    · intro he
      cases hfind : p.references.find? (count ≤ ·) with
      | none => simp [checkSlot, hfind] at he
      | some q =>
        simp only [checkSlot, hfind, Except.error.injEq] at he
        obtain ⟨hq, before, after, hsplit, hbefore⟩ := List.find?_eq_some_iff_append.1 hfind
        subst he
        exact .astray hsplit (by simpa using hbefore) (of_decide_eq_true hq)
    · rintro (⟨⟩ | ⟨hsplit, hbefore, hq⟩)
      have hfind : p.references.find? (count ≤ ·) = some _ := List.find?_eq_some_iff_append.2
        ⟨decide_eq_true hq, _, _, hsplit, by simpa using hbefore⟩
      simp only [checkSlot, hfind]

theorem checkFrom_cons_eq_error_iff {count : Nat} {id : ParserId} {slot : Slot κ}
    {slots : List (Slot κ)} {e : GrammarError} :
    checkFrom count id (slot :: slots) = .error e ↔ checkSlot count id slot = .error e ∨
      slot.Complete count ∧ checkFrom count (id + 1) slots = .error e := by
  rw [complete_iff id, checkFrom]
  cases checkSlot count id slot with
  | error e' => simp [bind, Except.bind]
  | ok r =>
    cases checkFrom count (id + 1) slots with
    | error e' => simp [bind, Except.bind]
    | ok rs => simp [bind, Except.bind, pure, Except.pure]

/-- The check stops at the first place that is not complete. -/
theorem checkFrom_eq_error_iff {count : Nat} {slots : List (Slot κ)} {e : GrammarError} :
    ∀ {id : ParserId}, checkFrom count id slots = .error e ↔
      ∃ k slot, slots[k]? = some slot ∧ checkSlot count (id + k) slot = .error e ∧
        ∀ j < k, ∀ s, slots[j]? = some s → s.Complete count := by
  induction slots with
  | nil => simp [checkFrom]
  | cons slot slots ih =>
    intro id
    have hplace (k : Nat) : id + 1 + k = id + (k + 1) := Nat.succ_add_eq_add_succ id k
    rw [checkFrom_cons_eq_error_iff, ih]
    constructor
    · rintro (hbad | ⟨hgood, k, bad, hk, hbad, hbefore⟩)
      · exact ⟨0, slot, rfl, hbad, fun j hj => absurd hj j.not_lt_zero⟩
      · refine ⟨k + 1, bad, hk, hplace k ▸ hbad, ?_⟩
        rintro (_ | j) hj s hs
        · cases hs
          exact hgood
        · exact hbefore j (Nat.lt_of_succ_lt_succ hj) s hs
    · rintro ⟨_ | k, bad, hk, hbad, hbefore⟩
      · cases hk
        exact .inl hbad
      · refine .inr ⟨hbefore 0 k.succ_pos slot rfl, k, bad, hk, (hplace k).symm ▸ hbad, ?_⟩
        intro j hj s hs
        exact hbefore (j + 1) (Nat.succ_lt_succ hj) s hs

theorem build_eq_error_iff_checkFrom {d : Draft κ} {e : GrammarError} :
    d.build = .error e ↔ checkFrom d.slots.size 0 d.slots.toList = .error e := by
  rw [build]
  cases checkFrom d.slots.size 0 d.slots.toList <;> simp [Except.map]

/-- A draft is accepted exactly if all its places are complete. -/
theorem exists_build_iff {d : Draft κ} :
    (∃ g, d.build = .ok g) ↔ ∀ slot ∈ d.slots, slot.Complete d.slots.size := by
  constructor
  · rintro ⟨g, hg⟩ slot hslot
    obtain ⟨hslots, hclosed⟩ := build_eq_ok_iff.1 hg
    rw [hslots] at hslot
    obtain ⟨r, hr, rfl⟩ := Array.mem_map.1 hslot
    refine ⟨r.parser, rfl, ?_⟩
    rw [hslots, Array.size_map]
    exact Grammar.closed_iff.1 hclosed r (Array.mem_toList_iff.2 hr)
  · intro h
    cases hb : d.build with
    | ok g => exact ⟨g, rfl⟩
    | error e =>
      obtain ⟨k, slot, hk, hbad, -⟩ :=
        checkFrom_eq_error_iff.1 (build_eq_error_iff_checkFrom.1 hb)
      have hslot := h slot (Array.mem_toList_iff.1 (List.mem_of_getElem? hk))
      obtain ⟨r, hr⟩ := (complete_iff (0 + k)).1 hslot
      rw [hr] at hbad
      cases hbad

/-- A draft in which only declared places lack a parser is refused for its first bad place. -/
theorem build_eq_error_iff {d : Draft κ} {e : GrammarError} (h : ∀ slot ∈ d.slots, slot.Named) :
    d.build = .error e ↔ ∃ (id : ParserId) (slot : Slot κ), d.slots[id]? = some slot ∧
      slot.Faulty d.slots.size id e ∧
      ∀ j < id, ∀ s : Slot κ, d.slots[j]? = some s → s.Complete d.slots.size := by
  simp only [build_eq_error_iff_checkFrom, checkFrom_eq_error_iff, Nat.zero_add,
    Array.getElem?_toList]
  refine exists_congr fun id => exists_congr fun slot => and_congr_right fun hslot => ?_
  rw [checkSlot_eq_error_iff (h slot (Array.mem_of_getElem? hslot))]

end Draft

end Blame

section Calls

namespace Draft

/-- What is answered to a call. -/
abbrev Answer := Except GrammarError (Option ParserId)

/-- The name that a call gives to a place. -/
def Call.name? : Call κ → Option String
  | .declare name | .rule name _ => some name
  | .define .. | .add _ => none

/-- The parser that a call gives to a place. -/
def Call.parser? : Call κ → Option (Parser κ)
  | .declare _ => none
  | .define _ made | .rule _ made | .add made => made.toOption

/-- The place that a call with its answer is about: the one that was handed out, or the one that was
filled. -/
def Call.place? (c : Call κ) : Answer → Option ParserId
  | .error _ => none
  | .ok (some id) => some id
  | .ok none =>
    match c with
    | .define id _ => some id
    | _ => none

/-- What a call with its answer gives to a place. -/
def Call.gives (give : Call κ → Option α) (id : ParserId) (c : Call κ) (a : Answer) : Option α :=
  if c.place? a = some id then give c else none

/-- What a place was given by calls with their answers, in turn. -/
def given (give : Call κ → Option α) (cs : List (Call κ)) (answers : List Answer) (id : ParserId) :
    List α :=
  (cs.zip answers).filterMap fun x => x.1.gives give id x.2

/-- The calls that did not fail. -/
def wentWell (cs : List (Call κ)) (answers : List Answer) : List (Call κ) :=
  ((cs.zip answers).filter (·.2.isOk)).map (·.1)

/-- The places that were handed out, in turn. -/
def issued (answers : List Answer) : List ParserId :=
  answers.filterMap (·.toOption.join)

/-- All that a call can do when it goes well. -/
theorem call_cases {d d' : Draft κ} {c : Call κ} {a : Option ParserId}
    (h : d.call c = .ok (a, d')) :
    a = some d.slots.size ∧ d'.slots = d.slots.push ⟨c.name?, c.parser?⟩ ∧
      (c.parser? = none → c.name?.isSome) ∨
    ∃ id name p, c = .define id (.ok p) ∧ a = none ∧ d.slots[id]? = some ⟨name, none⟩ ∧
      d'.slots = d.slots.setIfInBounds id ⟨name, some p⟩ := by
  cases c with
  | declare name =>
    cases h
    exact .inl ⟨rfl, rfl, fun _ => rfl⟩
  | define id made =>
    cases made with
    | error e => cases h
    | ok p =>
      refine .inr ⟨id, ?_⟩
      rcases hslot : d.slots[id]? with _ | ⟨name, _ | p'⟩
      · simp [call, define, hslot, bind, Except.bind] at h
      · simp only [call, define, hslot, bind, Except.bind, pure, Except.pure, Except.ok.injEq,
          Prod.mk.injEq] at h
        obtain ⟨rfl, rfl⟩ := h
        exact ⟨name, p, rfl, rfl, rfl, rfl⟩
      · simp [call, define, hslot, bind, Except.bind] at h
  | rule name made =>
    cases made with
    | error e => cases h
    | ok p =>
      cases h
      exact .inl ⟨rfl, rfl, nofun⟩
  | add made =>
    cases made with
    | error e => cases h
    | ok p =>
      cases h
      exact .inl ⟨rfl, rfl, nofun⟩

theorem callAll_ok {d d' : Draft κ} {c : Call κ} {a : Option ParserId}
    (h : d.call c = .ok (a, d')) (cs : List (Call κ)) :
    d.callAll (c :: cs) = (.ok a :: (d'.callAll cs).1, (d'.callAll cs).2) := by
  rw [callAll, h]

theorem callAll_error {d : Draft κ} {c : Call κ} {e : GrammarError} (h : d.call c = .error e)
    (cs : List (Call κ)) :
    d.callAll (c :: cs) = (.error e :: (d.callAll cs).1, (d.callAll cs).2) := by
  rw [callAll, h]

/-- Without the calls that fail the draft is the same, and the other answers are. -/
theorem callAll_wentWell (cs : List (Call κ)) (d : Draft κ) :
    d.callAll (wentWell cs (d.callAll cs).1) =
      ((d.callAll cs).1.filter (·.isOk), (d.callAll cs).2) := by
  induction d, cs using callAll.induct with
  | case1 d => rfl
  | case2 d c cs a d' h answers d'' hrest ih =>
    have hfirst : wentWell (c :: cs) (.ok a :: (d'.callAll cs).1) =
        c :: wentWell cs (d'.callAll cs).1 := rfl
    rw [callAll_ok h, hfirst, callAll_ok h, ih]
    rfl
  | case3 d c cs e h answers d' hrest ih =>
    have hskip : wentWell (c :: cs) (.error e :: (d.callAll cs).1) =
        wentWell cs (d.callAll cs).1 := rfl
    rw [callAll_error h, hskip, ih]
    rfl

/-- Places are handed out one after another. -/
theorem range_append_issued (cs : List (Call κ)) (d : Draft κ) :
    List.range d.slots.size ++ issued (d.callAll cs).1 =
      List.range (d.callAll cs).2.slots.size := by
  induction d, cs using callAll.induct with
  | case1 d => exact List.append_nil _
  | case2 d c cs a d' h answers d'' hrest ih =>
    rw [callAll_ok h, ← ih]
    rcases call_cases h with ⟨rfl, hslots, -⟩ | ⟨id, name, p, rfl, rfl, -, hslots⟩
    · rw [hslots, Array.size_push, List.range_succ, List.append_assoc]
      rfl
    · rw [hslots, Array.size_setIfInBounds]
      rfl
  | case3 d c cs e h answers d' hrest ih =>
    rw [callAll_error h, ← ih]
    rfl

theorem given_cons (give : Call κ → Option α) (c : Call κ) (cs : List (Call κ)) (a : Answer)
    (answers : List Answer) (id : ParserId) :
    given give (c :: cs) (a :: answers) id =
      (c.gives give id a).toList ++ given give cs answers id := by
  rw [given, List.zip_cons_cons, List.filterMap_cons]
  cases c.gives give id a <;> rfl

variable {give : Call κ → Option α} {view : Slot κ → Option α}

/-- A call that goes well adds what it gives to what is in its place. -/
theorem gives_call (hnew : ∀ c, view ⟨c.name?, c.parser?⟩ = give c)
    (hfill : ∀ id name p, (view ⟨name, some p⟩).toList =
      (view ⟨name, none⟩).toList ++ (give (.define id (.ok p))).toList)
    {d d' : Draft κ} {c : Call κ} {a : Option ParserId} (h : d.call c = .ok (a, d'))
    (id : ParserId) :
    (d'.slots[id]?.bind view).toList =
      (d.slots[id]?.bind view).toList ++ (c.gives give id (.ok a)).toList := by
  rcases call_cases h with ⟨rfl, hslots, -⟩ | ⟨id', name, p, rfl, rfl, hslot, hslots⟩
  · rw [hslots, Call.gives, Array.getElem?_push]
    by_cases hid : id = d.slots.size
    · subst hid
      simp [Call.place?, hnew]
    · simp [Call.place?, hid, Ne.symm hid]
  · rw [hslots, Call.gives]
    by_cases hid : id = id'
    · subst hid
      have hlt := (Array.getElem?_eq_some_iff.1 hslot).1
      have hplace : (Call.define id (.ok p)).place? (.ok none) = some id := rfl
      rw [if_pos hplace, Array.getElem?_setIfInBounds_self_of_lt hlt, hslot, Option.bind_some,
        Option.bind_some, hfill id]
    · simp [Call.place?, Ne.symm hid]

/-- After any calls a place holds what was in it and what it was given. -/
theorem given_callAll (hnew : ∀ c, view ⟨c.name?, c.parser?⟩ = give c)
    (hfill : ∀ id name p, (view ⟨name, some p⟩).toList =
      (view ⟨name, none⟩).toList ++ (give (.define id (.ok p))).toList)
    (cs : List (Call κ)) (d : Draft κ) (id : ParserId) :
    ((d.callAll cs).2.slots[id]?.bind view).toList =
      (d.slots[id]?.bind view).toList ++ given give cs (d.callAll cs).1 id := by
  induction d, cs using callAll.induct with
  | case1 d => exact (List.append_nil _).symm
  | case2 d c cs a d' h answers d'' hrest ih =>
    rw [callAll_ok h, ih, gives_call hnew hfill h, given_cons, List.append_assoc]
  | case3 d c cs e h answers d' hrest ih =>
    rw [callAll_error h, ih]
    rfl

theorem names_callAll (cs : List (Call κ)) (d : Draft κ) (id : ParserId) :
    ((d.callAll cs).2.slots[id]?.bind (·.name)).toList =
      (d.slots[id]?.bind (·.name)).toList ++ given Call.name? cs (d.callAll cs).1 id :=
  given_callAll (fun _ => rfl) (fun _ _ _ => (List.append_nil _).symm) cs d id

theorem parsers_callAll (cs : List (Call κ)) (d : Draft κ) (id : ParserId) :
    ((d.callAll cs).2.slots[id]?.bind (·.parser)).toList =
      (d.slots[id]?.bind (·.parser)).toList ++ given Call.parser? cs (d.callAll cs).1 id :=
  given_callAll (fun _ => rfl) (fun _ _ _ => rfl) cs d id

/-- Calls leave no place that has neither a name nor a parser. -/
theorem named_callAll {cs : List (Call κ)} {d : Draft κ} (hd : ∀ slot ∈ d.slots, slot.Named) :
    ∀ slot ∈ (d.callAll cs).2.slots, slot.Named := by
  induction d, cs using callAll.induct with
  | case1 d => exact hd
  | case2 d c cs a d' h answers d'' hrest ih =>
    rw [callAll_ok h]
    refine ih ?_
    rcases call_cases h with ⟨-, hslots, hnamed⟩ | ⟨id, name, p, -, -, -, hslots⟩
    · intro slot hslot
      rw [hslots] at hslot
      rcases Array.mem_push.1 hslot with hold | rfl
      · exact hd slot hold
      · exact hnamed
    · intro slot hslot
      rw [hslots] at hslot
      rcases Array.mem_or_eq_of_mem_setIfInBounds hslot with hold | rfl
      · exact hd slot hold
      · exact nofun
  | case3 d c cs e h answers d' hrest ih =>
    rw [callAll_error h]
    exact ih hd

end Draft

end Calls

section Building

open Draft

/-- A draft holds the rules of a grammar if it does so place by place, name and parser apart. -/
theorem Draft.slots_eq_iff {d : Draft κ} {g : Grammar κ} :
    d.slots = g.rules.map Rule.slot ↔ g.size = d.slots.size ∧
      ∀ (id : ParserId) (r : Rule κ), g.rules[id]? = some r →
        (d.slots[id]?.bind (·.name)).toList = r.name.toList ∧
          (d.slots[id]?.bind (·.parser)).toList = [r.parser] := by
  constructor
  · intro hslots
    refine ⟨by rw [hslots, Array.size_map, Grammar.size], fun id r hr => ?_⟩
    rw [hslots, Array.getElem?_map, hr]
    exact ⟨rfl, rfl⟩
  · rintro ⟨hsize, hheld⟩
    refine Array.ext_getElem? fun id => ?_
    rw [Array.getElem?_map]
    cases hr : g.rules[id]? with
    | none =>
      rw [Array.getElem?_eq_none_iff] at hr
      exact Array.getElem?_eq_none (hsize ▸ hr)
    | some r =>
      have hlt : id < d.slots.size := hsize ▸ (Array.getElem?_eq_some_iff.1 hr).1
      obtain ⟨hname, hparser⟩ := hheld id r hr
      rw [Array.getElem?_eq_getElem hlt, Option.bind_some] at hname hparser
      rw [Array.getElem?_eq_getElem hlt, Option.map_some, Option.some_inj]
      generalize d.slots[id] = slot at hname hparser
      obtain ⟨name, parser⟩ := slot
      obtain rfl : name = r.name := Option.ext fun x => by
        rw [← Option.mem_toList, ← Option.mem_toList]
        exact hname ▸ Iff.rfl
      obtain rfl : parser = some r.parser := Option.toList_eq_singleton_iff.1 hparser
      rfl

/-- Calls that fail leave no trace, places are handed out from 0 on without a gap, and what comes of
a draft is settled: it is accepted if every place is filled and every reference leads to a place, and
each place of the grammar then has the name and the one parser that it was given. If not, the error is
about the first bad place: it is not defined, or else refers to what is not there. -/
theorem complete_drafts_build (cs : List (Call κ)) :
    let answers := (({} : Draft κ).callAll cs).1
    let d := (({} : Draft κ).callAll cs).2
    ({} : Draft κ).callAll (wentWell cs answers) = (answers.filter (·.isOk), d) ∧
    issued answers = List.range d.slots.size ∧
    ((∃ g, d.build = .ok g) ↔ ∀ slot ∈ d.slots, slot.Complete d.slots.size) ∧
    (∀ g, d.build = .ok g ↔ g.size = d.slots.size ∧ g.Closed ∧
      ∀ id r, g.rules[id]? = some r → given Call.name? cs answers id = r.name.toList ∧
        given Call.parser? cs answers id = [r.parser]) ∧
    ∀ e, d.build = .error e ↔ ∃ (id : ParserId) (slot : Slot κ), d.slots[id]? = some slot ∧
      slot.Faulty d.slots.size id e ∧
      ∀ j < id, ∀ s : Slot κ, d.slots[j]? = some s → s.Complete d.slots.size := by
  intro answers d
  have hnames (id : ParserId) : (d.slots[id]?.bind (·.name)).toList =
      given Call.name? cs answers id := names_callAll cs {} id
  have hparsers (id : ParserId) : (d.slots[id]?.bind (·.parser)).toList =
      given Call.parser? cs answers id := parsers_callAll cs {} id
  refine ⟨callAll_wentWell cs {}, range_append_issued cs {}, exists_build_iff, fun g => ?_,
    fun e => build_eq_error_iff (named_callAll nofun)⟩
  simp only [build_eq_ok_iff, slots_eq_iff, hnames, hparsers]
  exact and_assoc.trans (and_congr_right fun _ => and_comm)

/-- A reference into the void is reported before a later place that was never filled. -/
example : (({} : Draft Empty).callAll [.add (.ok (.sequence [0, 7])), .declare "r"]).2.build =
    .error (.unknownParser 7 0) := rfl

end Building

end PushParsing
