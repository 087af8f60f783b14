import PushParsing.Proofs.Effects
import PushParsing.Proofs.Soundness
import PushParsing.Proofs.Steps

/-!
# On whose behalf

Each job of a standard engine is done on behalf of one accumulator. Only that accumulator can have
something recorded by the job, and what the job calls for is done on behalf of the same accumulator,
of one that listens to it, or of a new one.
-/
namespace PushParsing

/-- The accumulator on whose behalf something is done. -/
def Operation.target : Operation Empty → AccumulatorId
  | .addTree target _ | .addStop target _ | .addFailure target _ | .failAt target _ _
  | .forward _ target => target
  | .listen _ l => l.role.target
  | .watch _ role => role.target
  | .request _ _ _ next | .lookup _ _ _ next | .resume next => next.elim

/-- The accumulator on whose behalf a job is done. -/
def Job.target : Job Empty → AccumulatorId
  | .operate o => o.target
  | .ask _ _ _ next | .proceed next _ => next.role.target
  | .start target | .carry _ target => target
  | .tell l _ _ => l.role.target

variable {g : Grammar Empty} {s s' : Store Empty} {j j' : Job Empty} {id : AccumulatorId}

theorem Job.target_of_recorded {news : News} (h : j.event? s = some (.recorded id news)) :
    j.target = id := by
  obtain ⟨a, -, -, ⟨t, rfl, -⟩ | ⟨f, rfl, -⟩⟩ := Job.eq_of_recorded h
  · rfl
  · rfl

/-- The accumulator on whose behalf a sound job is done is there. -/
theorem Job.Sound.isFor_target {d : Document} {c : ContextNumber} (hs : s.Sound g)
    (hd : s.document? c = some d) (hj : j.Sound g d s c) : ∃ p i, s.IsFor j.target c p i := by
  have hserved {role : Role Empty} {q : ParserId} {k : Nat} (h : role.Serves g d s c q k) :
      ∃ p i, s.IsFor role.target c p i := by
    obtain ⟨p, i, hp, -⟩ := h.requests hs hd
    exact ⟨p, i, hp⟩
  cases j with
  | operate o =>
    cases o with
    | addTree target _ | addStop target _ | addFailure target _ | failAt target _ _ =>
      obtain ⟨p, i, hp, -⟩ := hj
      exact ⟨p, i, hp⟩
    | listen _ _ | watch _ _ | forward _ _ =>
      obtain ⟨q, k, -, hr⟩ := hj
      exact hserved hr
    | request _ _ _ next | lookup _ _ _ next | resume next => exact next.elim
  | ask c' q k next =>
    obtain ⟨-, -, hr⟩ := hj
    exact hserved hr
  | start id => exact hj
  | proceed next id =>
    obtain ⟨q, k, -, hr⟩ := hj
    exact hserved hr
  | tell l source news =>
    obtain ⟨q, k, -, hr, -⟩ := hj
    exact hserved hr
  | carry source target =>
    obtain ⟨p, i, q, k, hp, -⟩ := hj
    exact ⟨p, i, hp⟩

/-- What a job calls for is done on behalf of the same accumulator, of one that listens to it, or of
one that is new. -/
theorem Job.target_called (h : j' ∈ (j.perform (.standard g) s ()).2.2) :
    j'.target = j.target ∨
      (∃ a l, s.accumulator? j.target = some a ∧ l ∈ a.listeners ∧ j'.target = l.role.target) ∨
      ∃ c q k next, j = .ask c q k next ∧ (s.request c q k).2.1 = true ∧
        j' = .start (s.request c q k).1 := by
  cases Job.callsFor h with
  | code code _ => exact code.elim
  | @request _ _ _ next => exact next.elim
  | tellTree ha hl | tellFailure ha hl => exact .inr (.inl ⟨_, _, ha, hl, rfl⟩)
  | start hnew => exact .inr (.inr ⟨_, _, _, _, rfl, hnew, rfl⟩)
  | «continue» htarget => exact .inl htarget
  | _ => exact .inl rfl

end PushParsing
