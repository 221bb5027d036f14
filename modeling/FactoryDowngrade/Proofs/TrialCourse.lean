import FactoryDowngrade.Optimize

/-!
# The course of a trial

A bench can be made to record what happens in it, which changes nothing about a run. The record of
a trial has one of few courses: the scratch directory cannot be made; or it is made, the text as it
is and the candidate are judged one after the other until one of them does not pass, and the
directory is taken away, which may fail as well. The course determines the result.
-/

namespace FactoryDowngrade

/-- What happens in the surroundings of a trial: a scratch directory is asked for, a text is
judged, or the directory is to be taken away. -/
inductive TrialEvent where
  | entered (answer : Except OsFault PathName)
  | judged (text : Text) (answer : Except TrialFault Verdict)
  | left (answer : Except OsFault Unit)

namespace TrialEvent

/-- Whether the surroundings fail. -/
def isFailure : TrialEvent → Bool
  | entered (.error _) => true
  | judged _ (.error _) => true
  | left (.error _) => true
  | _ => false

/-- Whether a text does not pass. -/
def isRefusal : TrialEvent → Bool
  | judged _ (.ok v) => !v.isPass
  | _ => false

/-- The text that is judged, and the answer. -/
def judgement? : TrialEvent → Option (Text × Except TrialFault Verdict)
  | judged text answer => some (text, answer)
  | _ => none

/-- Events in a scratch directory that was made and is taken away, with the answer to that. -/
def around (dir : PathName) (events : List TrialEvent) (answer : Except OsFault Unit) :
    List TrialEvent :=
  entered (.ok dir) :: events ++ [left answer]

/-- Around some events are the making of the directory and its removal. -/
theorem mem_around {dir : PathName} {events : List TrialEvent} {answer : Except OsFault Unit}
    {e : TrialEvent} :
    e ∈ around dir events answer ↔ e = entered (.ok dir) ∨ e ∈ events ∨ e = left answer := by
  simp [around]

/-- The scratch directory itself is not judged. -/
theorem judgement?_around (dir : PathName) (events : List TrialEvent)
    (answer : Except OsFault Unit) :
    (around dir events answer).filterMap judgement? = events.filterMap judgement? := by
  rw [around, List.cons_append, List.filterMap_cons_none rfl, List.filterMap_append]
  exact List.append_nil _

end TrialEvent

variable {σ : Type}

namespace Bench

/-- The bench that also records what happens. -/
def recorded (bench : Bench σ) : Bench (σ × List TrialEvent) where
  enter file s :=
    let answer := bench.enter file s.1
    (answer.1, answer.2, s.2 ++ [.entered answer.1])
  judge dir file text s :=
    let answer := bench.judge dir file text s.1
    (answer.1, answer.2, s.2 ++ [.judged text answer.1])
  leave dir s :=
    let answer := bench.leave dir s.1
    (answer.1, answer.2, s.2 ++ [.left answer.1])
  remark record s := (bench.remark record s.1, s.2)

/-- A recording bench records the directory that it makes. -/
theorem recorded_enter (bench : Bench σ) (file : String) (s : σ) (log : List TrialEvent) :
    bench.recorded.enter file (s, log) =
      ((bench.enter file s).1, (bench.enter file s).2,
        log ++ [.entered (bench.enter file s).1]) := rfl

/-- It records each text that it judges, with the answer. -/
theorem recorded_judge (bench : Bench σ) (dir : PathName) (file : String) (text : Text) (s : σ)
    (log : List TrialEvent) :
    bench.recorded.judge dir file text (s, log) =
      ((bench.judge dir file text s).1, (bench.judge dir file text s).2,
        log ++ [.judged text (bench.judge dir file text s).1]) := rfl

/-- It records how the directory was taken away. -/
theorem recorded_leave (bench : Bench σ) (dir : PathName) (s : σ) (log : List TrialEvent) :
    bench.recorded.leave dir (s, log) =
      ((bench.leave dir s).1, (bench.leave dir s).2, log ++ [.left (bench.leave dir s).1]) := rfl

/-- It does not record what is logged. -/
theorem recorded_remark (bench : Bench σ) (record : LogRecord) (s : σ) (log : List TrialEvent) :
    bench.recorded.remark record (s, log) = (bench.remark record s, log) := rfl

/-- Whether judging a text can fail in some way. -/
def CanFail (bench : Bench σ) (fault : TrialFault) : Prop :=
  ∃ dir file text s, (bench.judge dir file text s).1 = .error fault

end Bench

namespace Trial

/-! ### Judging in the scratch directory -/

/-- What happens while texts are judged, and what it comes to; the flag says whether the text as
it is comes first. -/
inductive Judging (bench : Bench σ) (text candidate : Text) (decisions : List Decision) :
    Bool → List TrialEvent → Except TrialFault TrialResult → Prop where
  | candidateFailed {fault : TrialFault} (h : bench.CanFail fault) :
    Judging bench text candidate decisions false [.judged candidate (.error fault)] (.error fault)
  | candidateRefused {v : Verdict} (h : v.isPass = false) :
    Judging bench text candidate decisions false [.judged candidate (.ok v)]
      (.ok (rollback text decisions v (candidateNote v.outcome)))
  | candidatePassed {v : Verdict} (h : v.isPass = true) :
    Judging bench text candidate decisions false [.judged candidate (.ok v)]
      (.ok (commit candidate decisions v))
  | baselineFailed {fault : TrialFault} (h : bench.CanFail fault) :
    Judging bench text candidate decisions true [.judged text (.error fault)] (.error fault)
  | baselineRefused {v : Verdict} (h : v.isPass = false) :
    Judging bench text candidate decisions true [.judged text (.ok v)]
      (.ok (rollback text decisions v (baselineNote v.outcome)))
  | baselinePassed {v : Verdict} {events : List TrialEvent}
      {result : Except TrialFault TrialResult} (h : v.isPass = true)
      (rest : Judging bench text candidate decisions false events result) :
    Judging bench text candidate decisions true (.judged text (.ok v) :: events) result

/-- A run on the recording bench is the same run with the events written down. -/
def IsRecording {α : Type} (plain : α × σ) (recorded : α × σ × List TrialEvent)
    (log events : List TrialEvent) : Prop :=
  recorded = (plain.1, plain.2, log ++ events)

/-- The candidate is judged once. -/
theorem judging_checkCandidate (bench : Bench σ) (dir : PathName) (file : String)
    (text candidate : Text) (decisions : List Decision) (s : σ) (log : List TrialEvent) :
    ∃ events, IsRecording (checkCandidate bench dir file text candidate decisions s)
        (checkCandidate bench.recorded dir file text candidate decisions (s, log)) log events ∧
      Judging bench text candidate decisions false events
        (checkCandidate bench dir file text candidate decisions s).1 := by
  unfold checkCandidate IsRecording
  rw [Bench.recorded_judge]
  cases hjudge : bench.judge dir file candidate s with
  | mk answer s' =>
    cases answer with
    | error fault =>
      have hfail : bench.CanFail fault := ⟨dir, file, candidate, s, by rw [hjudge]⟩
      exact ⟨_, rfl, .candidateFailed hfail⟩
    | ok v =>
      cases hpass : v.isPass with
      | false =>
        simp only [hpass, Bool.false_eq_true, if_false]
        exact ⟨_, rfl, .candidateRefused hpass⟩
      | true =>
        simp only [hpass, if_true]
        exact ⟨_, rfl, .candidatePassed hpass⟩

/-- The text as it is, if asked for, and the candidate are judged in turn. -/
theorem judging_verify (bench : Bench σ) (baseline : Bool) (dir : PathName) (file : String)
    (text candidate : Text) (decisions : List Decision) (s : σ) (log : List TrialEvent) :
    ∃ events, IsRecording (verify bench baseline dir file text candidate decisions s)
        (verify bench.recorded baseline dir file text candidate decisions (s, log)) log events ∧
      Judging bench text candidate decisions baseline events
        (verify bench baseline dir file text candidate decisions s).1 := by
  cases baseline with
  | false => exact judging_checkCandidate bench dir file text candidate decisions s log
  | true =>
    unfold verify checkBaseline IsRecording
    rw [if_pos rfl, if_pos rfl, Bench.recorded_judge]
    cases hjudge : bench.judge dir file text s with
    | mk answer s' =>
      cases answer with
      | error fault =>
        have hfail : bench.CanFail fault := ⟨dir, file, text, s, by rw [hjudge]⟩
        exact ⟨_, rfl, .baselineFailed hfail⟩
      | ok v =>
        cases hpass : v.isPass with
        | false =>
          simp only [hpass, Bool.false_eq_true, if_false]
          exact ⟨_, rfl, .baselineRefused hpass⟩
        | true =>
          obtain ⟨events, hrecording, hjudging⟩ := judging_checkCandidate bench dir file text
            candidate decisions s' (log ++ [.judged text (.ok v)])
          simp only [hpass, if_true]
          refine ⟨.judged text (.ok v) :: events, ?_, .baselinePassed hpass hjudging⟩
          rw [hrecording, List.append_assoc]
          rfl

/-! ### The scratch directory around it -/

/-- What happens in a trial, and what it comes to. -/
inductive Course (bench : Bench σ) (baseline : Bool) (text candidate : Text)
    (decisions : List Decision) :
    List TrialEvent → Except TrialFault TrialResult → Prop where
  | shut (fault : OsFault) :
    Course bench baseline text candidate decisions [.entered (.error fault)]
      (.error (.scratch fault))
  | stuck (dir : PathName) (fault : OsFault) {events : List TrialEvent}
      {result : Except TrialFault TrialResult}
      (inner : Judging bench text candidate decisions baseline events result) :
    Course bench baseline text candidate decisions
      (TrialEvent.around dir events (.error fault)) (.error (.scratch fault))
  | through (dir : PathName) {events : List TrialEvent}
      {result : Except TrialFault TrialResult}
      (inner : Judging bench text candidate decisions baseline events result) :
    Course bench baseline text candidate decisions (TrialEvent.around dir events (.ok ())) result

/-- Every trial takes one of the courses. -/
theorem course_inScratch (bench : Bench σ) (baseline : Bool) (file : String)
    (text candidate : Text) (decisions : List Decision) (s : σ) (log : List TrialEvent) :
    ∃ events, IsRecording (inScratch bench baseline file text candidate decisions s)
        (inScratch bench.recorded baseline file text candidate decisions (s, log)) log events ∧
      Course bench baseline text candidate decisions events
        (inScratch bench baseline file text candidate decisions s).1 := by
  unfold inScratch
  rw [Bench.recorded_enter]
  cases bench.enter file s with
  | mk answer s₁ =>
    cases answer with
    | error fault => exact ⟨_, rfl, .shut fault⟩
    | ok dir =>
      obtain ⟨events, hrecording, hjudging⟩ := judging_verify bench baseline dir
        (PathName.ofString file).name text candidate decisions s₁ (log ++ [.entered (.ok dir)])
      dsimp only
      rw [hrecording]
      cases hverify : verify bench baseline dir (PathName.ofString file).name text candidate
        decisions s₁ with
      | mk result s₂ =>
        rw [hverify] at hjudging
        dsimp only
        rw [Bench.recorded_leave]
        cases bench.leave dir s₂ with
        | mk answer s₃ =>
          cases answer with
          | error fault =>
            refine ⟨_, ?_, .stuck dir fault hjudging⟩
            simp [IsRecording, TrialEvent.around]
          | ok _ =>
            refine ⟨_, ?_, .through dir hjudging⟩
            simp [IsRecording, TrialEvent.around]

end Trial

end FactoryDowngrade
