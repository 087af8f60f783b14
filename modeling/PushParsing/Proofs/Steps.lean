import PushParsing.Engine.Machine

/-!
# What jobs call for

Each job calls for few kinds of others. They are listed here once, so that whatever is claimed of the
jobs on an agenda is shown by going through the list.
-/
namespace PushParsing

variable {κ σ : Type}

/-- What a custom code asks for when a job is done, if it is one that lets a custom code act. -/
def Job.asks (e : Engine κ σ) (s : Store κ) (w : σ) : Job κ → List (Operation κ)
  | .operate (.lookup c p i next) =>
    (e.react next (.reached (s.lookup c p i).1) (s.lookup c p i).2 w).2
  | .operate (.resume next) => (e.react next .resumed s w).2
  | .start id =>
    match s.accumulator? id with
    | none => []
    | some a =>
      match s.context? a.context with
      | none => []
      | some x =>
        if x.document.size < a.position then []
        else
          match e.grammar.parser? a.parser with
          | some (.custom _ _ code) => (e.react code (.started id) s w).2
          | _ => []
  | .proceed (.custom code) id => (e.react code (.reached (some id)) s w).2
  | .tell ⟨_, .custom code⟩ source (.found t) => (e.react code (.found source t) s w).2
  | .tell ⟨_, .custom code⟩ source (.failed f) => (e.react code (.failed source f) s w).2
  | _ => []

/-- The first job may call for the second one when it is done. -/
inductive Job.CallsFor (e : Engine κ σ) (s : Store κ) (w : σ) : Job κ → Job κ → Prop
  | code {j : Job κ} (code : κ) (o : Operation κ) : o ∈ j.asks e s w →
      CallsFor e s w j (.operate o)
  -- What operations call for.
  | request {c : ContextNumber} {p : ParserId} {i : Nat} {next : κ} :
      CallsFor e s w (.operate (.request c p i next)) (.ask c p i (.custom next))
  | tellTree {target : AccumulatorId} {t : Tree} {a : Accumulator κ} {l : Listener κ} :
      s.accumulator? target = some a → l ∈ a.listeners →
      CallsFor e s w (.operate (.addTree target t)) (.tell l target (.found (a.adopt t)))
  | tellFailure {target : AccumulatorId} {f : Failure} {a : Accumulator κ} {l : Listener κ} :
      s.accumulator? target = some a → l ∈ a.listeners →
      CallsFor e s w (.operate (.addFailure target f)) (.tell l target (.failed f))
  | leaf {target : AccumulatorId} {stop : Nat} {a : Accumulator κ} :
      s.accumulator? target = some a → CallsFor e s w (.operate (.addStop target stop))
        (.operate (.addTree target (.leaf a.parser a.position stop)))
  | refuse {target : AccumulatorId} {stop position : Nat} {message : String} :
      CallsFor e s w (.operate (.addStop target stop)) (.operate (.failAt target message position))
  | fail {target : AccumulatorId} {message : String} {position : Nat} {f : Failure} :
      CallsFor e s w (.operate (.failAt target message position)) (.operate (.addFailure target f))
  /-- Whoever comes to listen is told of the trees that are there. -/
  | replay {source : AccumulatorId} {l : Listener κ} {a : Accumulator κ} {t : Tree} :
      s.accumulator? source = some a → t ∈ a.trees →
      CallsFor e s w (.operate (.listen source l)) (.tell l source (.found t))
  | listen {source : AccumulatorId} {role : Role κ} :
      CallsFor e s w (.operate (.watch source role))
        (.operate (.listen source ⟨s.listenerCount, role⟩))
  | forwardWatch {source target : AccumulatorId} :
      CallsFor e s w (.operate (.forward source target)) (.operate (.watch source (.forward target)))
  | forwardCarry {source target : AccumulatorId} :
      CallsFor e s w (.operate (.forward source target)) (.carry source target)
  -- To ask calls for a parser to be started, if the pair is new.
  | start {c : ContextNumber} {p : ParserId} {i : Nat} {next : Next κ} :
      (s.request c p i).2.1 = true → CallsFor e s w (.ask c p i next) (.start (s.request c p i).1)
  | proceed {c : ContextNumber} {p : ParserId} {i : Nat} {next : Next κ} :
      CallsFor e s w (.ask c p i next) (.proceed next (s.request c p i).1)
  -- What parsers begin with.
  | beginFail {id : AccumulatorId} {message : String} {position : Nat} :
      CallsFor e s w (.start id) (.operate (.failAt id message position))
  | beginStop {id : AccumulatorId} {stop : Nat} :
      CallsFor e s w (.start id) (.operate (.addStop id stop))
  | beginTree {id : AccumulatorId} {a : Accumulator κ} : s.accumulator? id = some a →
      CallsFor e s w (.start id) (.operate (.addTree id (.nothing a.parser a.position)))
  | beginElement {id : AccumulatorId} {a : Accumulator κ} {p : ParserId} {rest : List ParserId} :
      s.accumulator? id = some a → CallsFor e s w (.start id)
        (.ask a.context p a.position (.await ⟨id, a.position, [], rest⟩))
  | beginPass {id : AccumulatorId} {a : Accumulator κ} {p : ParserId} :
      s.accumulator? id = some a → CallsFor e s w (.start id)
        (.ask a.context p a.position (.forwardTo id))
  -- What is done with an accumulator that was asked for.
  | forwardTo {target id : AccumulatorId} :
      CallsFor e s w (.proceed (.forwardTo target) id) (.operate (.forward id target))
  | awaitWatch {q : Sequel} {id : AccumulatorId} :
      CallsFor e s w (.proceed (.await q) id) (.operate (.watch id (.element q)))
  | awaitCarry {q : Sequel} {id : AccumulatorId} :
      CallsFor e s w (.proceed (.await q) id) (.carry id q.target)
  -- What listeners do when they are told.
  | passTree {n : Nat} {target source : AccumulatorId} {t : Tree} :
      CallsFor e s w (.tell ⟨n, .forward target⟩ source (.found t)) (.operate (.addTree target t))
  | passFailure {n : Nat} {target source : AccumulatorId} {f : Failure} :
      CallsFor e s w (.tell ⟨n, .forward target⟩ source (.failed f)) (.operate (.addFailure target f))
  /-- The last element of a sequence. -/
  | complete {n : Nat} {q : Sequel} {source : AccumulatorId} {t : Tree} {a : Accumulator κ} :
      s.accumulator? q.target = some a → CallsFor e s w (.tell ⟨n, .element q⟩ source (.found t))
        (.operate (.addTree q.target (.join a.parser q.start (q.taken ++ [t]))))
  | continue {n : Nat} {q q' : Sequel} {source : AccumulatorId} {t : Tree} {c : ContextNumber}
      {p : ParserId} : q'.target = q.target → q'.start = q.start →
      CallsFor e s w (.tell ⟨n, .element q⟩ source (.found t)) (.ask c p t.stop (.await q'))
  | elementFailure {n : Nat} {q : Sequel} {source : AccumulatorId} {f : Failure} :
      CallsFor e s w (.tell ⟨n, .element q⟩ source (.failed f))
        (.operate (.addFailure q.target f))
  | carry {source target : AccumulatorId} {f : Failure} :
      CallsFor e s w (.carry source target) (.operate (.addFailure target f))

variable {e : Engine κ σ} {s : Store κ} {w : σ} {j k : Job κ}

theorem Engine.callsFor_act {code : κ} {o : Occasion} {s' : Store κ}
    (hasks : j.asks e s w = (e.react code o s' w).2) (h : k ∈ (e.act code o s' w).2.2) :
    j.CallsFor e s w k := by
  obtain ⟨o, ho, rfl⟩ := List.mem_map.1 h
  exact .code code o (hasks ▸ ho)

theorem Operation.callsFor {o : Operation κ} (h : k ∈ (o.perform e s w).2.2) :
    (Job.operate o).CallsFor e s w k := by
  cases o with
  | request c p i next =>
    obtain rfl := List.mem_singleton.1 h
    exact .request
  | lookup c p i next => exact Engine.callsFor_act rfl h
  | resume next => exact Engine.callsFor_act rfl h
  | addTree target t =>
    simp only [perform] at h
    split at h
    · cases h
    next a ha =>
      split at h
      · cases h
      · obtain ⟨l, hl, rfl⟩ := List.mem_map.1 h
        exact .tellTree ha hl
  | addFailure target f =>
    simp only [perform] at h
    split at h
    · cases h
    next a ha =>
      split at h
      · cases h
      · obtain ⟨l, hl, rfl⟩ := List.mem_map.1 h
        exact .tellFailure ha hl
  | addStop target stop =>
    simp only [perform] at h
    split at h
    · cases h
    next a ha =>
      split at h
      · obtain rfl := List.mem_singleton.1 h
        exact .refuse
      · obtain rfl := List.mem_singleton.1 h
        exact .leaf ha
  | failAt target message position =>
    simp only [perform] at h
    split at h
    · cases h
    · obtain rfl := List.mem_singleton.1 h
      exact .fail
  | listen source l =>
    simp only [perform] at h
    split at h
    · cases h
    next a ha =>
      split at h
      · cases h
      · obtain ⟨t, ht, rfl⟩ := List.mem_map.1 h
        exact .replay ha ht
  | watch source role =>
    obtain rfl := List.mem_singleton.1 h
    exact .listen
  | forward source target =>
    rcases List.mem_cons.1 h with rfl | h
    · exact .forwardWatch
    · obtain rfl := List.mem_singleton.1 h
      exact .forwardCarry

theorem Parser.callsFor_begin {d : Document} {id : AccumulatorId} {a : Accumulator κ}
    {x : Parser κ} (ha : s.accumulator? id = some a) (h : k ∈ x.begin d id a) :
    (Job.start id).CallsFor e s w k := by
  cases x with
  | literal text =>
    simp only [begin] at h
    split at h
    · obtain rfl := List.mem_singleton.1 h
      exact .beginStop
    · obtain rfl := List.mem_singleton.1 h
      exact .beginFail
  | pattern r =>
    simp only [begin] at h
    split at h
    · obtain rfl := List.mem_singleton.1 h
      exact .beginStop
    · obtain rfl := List.mem_singleton.1 h
      exact .beginFail
  | sequence es =>
    cases es with
    | nil =>
      obtain rfl := List.mem_singleton.1 h
      exact .beginTree ha
    | cons p rest =>
      obtain rfl := List.mem_singleton.1 h
      exact .beginElement ha
  | choice ps =>
    cases ps with
    | nil =>
      obtain rfl := List.mem_singleton.1 h
      exact .beginFail
    | cons p ps =>
      obtain ⟨q, -, rfl⟩ := List.mem_map.1 h
      exact .beginPass ha
  | optional p =>
    rcases List.mem_cons.1 h with rfl | h
    · exact .beginStop
    · obtain rfl := List.mem_singleton.1 h
      exact .beginPass ha
  | custom label refs code => cases h

theorem Sequel.callsFor_continue {n : Nat} {q : Sequel} {source : AccumulatorId} {t : Tree}
    (h : k ∈ q.continue s t) : (Job.tell ⟨n, .element q⟩ source (.found t)).CallsFor e s w k := by
  simp only [Sequel.continue] at h
  split at h
  · cases h
  next a ha =>
    split at h
    · obtain rfl := List.mem_singleton.1 h
      exact .complete ha
    · split at h
      · obtain rfl := List.mem_singleton.1 h
        exact .continue rfl rfl
      · cases h

theorem Job.callsFor_start {id : AccumulatorId} (h : k ∈ ((Job.start id).perform e s w).2.2) :
    (Job.start id).CallsFor e s w k := by
  simp only [perform] at h
  split at h
  · cases h
  next a ha =>
    split at h
    · cases h
    next x hx =>
      split at h
      · obtain rfl := List.mem_singleton.1 h
        exact .beginFail
      next hi =>
        split at h
        · obtain rfl := List.mem_singleton.1 h
          exact .beginFail
        next label refs code hp =>
          have hasks : (Job.start id).asks e s w = (e.react code (.started id) s w).2 := by
            simp only [asks, ha, hx, if_neg hi, hp]
          exact Engine.callsFor_act hasks h
        · exact Parser.callsFor_begin ha h

theorem Job.callsFor_tell {l : Listener κ} {source : AccumulatorId} {news : News}
    (h : k ∈ ((Job.tell l source news).perform e s w).2.2) :
    (Job.tell l source news).CallsFor e s w k := by
  obtain ⟨n, role⟩ := l
  cases role with
  | forward target =>
    simp only [perform] at h
    split at h
    · cases news with
      | found t =>
        obtain rfl := List.mem_singleton.1 h
        exact .passTree
      | failed f =>
        obtain rfl := List.mem_singleton.1 h
        exact .passFailure
    · cases h
  | element q =>
    simp only [perform] at h
    split at h
    · cases news with
      | found t => exact Sequel.callsFor_continue h
      | failed f =>
        obtain rfl := List.mem_singleton.1 h
        exact .elementFailure
    · cases h
  | custom code => cases news <;> exact Engine.callsFor_act rfl h

/-- The inversion lemma: what a job calls for is on the list. -/
theorem Job.callsFor (h : k ∈ (j.perform e s w).2.2) : j.CallsFor e s w k := by
  cases j with
  | operate o => exact Operation.callsFor h
  | ask c p i next =>
    simp only [perform] at h
    split at h
    next hnew =>
      rcases List.mem_cons.1 h with rfl | h
      · exact .start hnew
      · obtain rfl := List.mem_singleton.1 h
        exact .proceed
    next =>
      obtain rfl := List.mem_singleton.1 h
      exact .proceed
  | start id => exact Job.callsFor_start h
  | proceed next id =>
    cases next with
    | forwardTo target =>
      obtain rfl := List.mem_singleton.1 h
      exact .forwardTo
    | await q =>
      rcases List.mem_cons.1 h with rfl | h
      · exact .awaitWatch
      · obtain rfl := List.mem_singleton.1 h
        exact .awaitCarry
    | custom code => exact Engine.callsFor_act rfl h
  | tell l source news => exact Job.callsFor_tell h
  | carry source target =>
    simp only [perform] at h
    split at h
    · obtain rfl := List.mem_singleton.1 h
      exact .carry
    · cases h

/-- Whether a job is to start a parser. -/
def Job.isStart : Job κ → Bool
  | .start _ => true
  | _ => false

/-- Only to ask for an accumulator calls for a parser to be started. -/
theorem Job.CallsFor.isStart (h : j.CallsFor e s w k) (hj : ∀ c p i next, j ≠ .ask c p i next) :
    k.isStart = false := by
  cases h with
  | start => exact absurd rfl (hj _ _ _ _)
  | _ => rfl

/-- To start a parser leaves the store as it is. -/
theorem Job.store_start {id : AccumulatorId} : ((Job.start id).perform e s w).1 = s := by
  simp only [perform]
  split
  · rfl
  · split
    · rfl
    · split
      · rfl
      · split <;> rfl

end PushParsing
