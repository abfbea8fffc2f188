import Galley.Proofs.Process.Surroundings
import Galley.Proofs.Step.Writing
/-!
# Lines in any order with the end

A step waits for the next line of its container and for the container's end at once, and goes on with
whichever comes first; the lines that are left at the end are handled after it. Main statement: where nothing
fails, it makes no difference when the end comes. The lines up to the first one that reports a failure are
handled one after another, and the step fails with that report or has the exit code of its container.
-/
namespace Galley

open Process

/-! ### A container that prints its lines and ends -/

/-- The files, with the lines that were handled. -/
structure Scene where
  files : Files
  heard : List Heard

/-- How a container with an id that prints some lines and ends with an exit code answers, where no call
fails and nothing is over before the container is. Its lines and its end come in any order. -/
inductive Scene.Serves (id : String) (lines : List String) (exitCode : Int) :
    Scene → (a : Action) → a.Answer → Scene → Prop
  | logs (s : Scene) : Serves id lines exitCode s (.container (.logs id)) (.ok ⟨lines, true⟩) s
  | wait (s : Scene) (watch : Watch) : Serves id lines exitCode s (.container (.wait id)) watch s
  | stop (s : Scene) (r : Except ContainerError Unit) :
      Serves id lines exitCode s (.container (.stop id)) r s
  | timer (s : Scene) (length : Duration) (instant : Nat) :
      Serves id lines exitCode s (.timer length) instant s
  | moved (s : Scene) (watch : Watch) (deadline : Nat) :
      Serves id lines exitCode s (.awaitOutput watch deadline) none s
  | overtaken (s : Scene) (watch : Watch) (deadline : Nat) :
      Serves id lines exitCode s (.awaitOutput watch deadline) (some (.exited (.ok exitCode))) s
  | ended (s : Scene) (watch : Watch) (deadline : Nat) :
      Serves id lines exitCode s (.awaitEnd watch deadline) (.exited (.ok exitCode)) s
  | drained (s : Scene) (deadline : Nat) : Serves id lines exitCode s (.awaitDrain deadline) true s
  | line (s : Scene) (o : Output) (route : Route) (l : Heard) :
      Serves id lines exitCode s (.line o route l.text)
        ((o.handle s.files l.text l.now l.instant).output,
          (o.handle s.files l.text l.now l.instant).outcome)
        ⟨(o.handle s.files l.text l.now l.instant).files, s.heard ++ [l]⟩

section Serves

variable {id : String} {lines : List String} {exitCode : Int} {s s' : Scene}

theorem Scene.Serves.of_logs {r : Except ContainerError LogStream}
    (h : Serves id lines exitCode s (.container (.logs id)) r s') : r = .ok ⟨lines, true⟩ ∧ s' = s := by
  cases h
  exact ⟨rfl, rfl⟩

/-- What is waited for while lines come is that they move on, or the end. -/
theorem Scene.Serves.of_awaitOutput {watch : Watch} {deadline : Nat} {r : Option Ending}
    (h : Serves id lines exitCode s (.awaitOutput watch deadline) r s') :
    (r = none ∨ r = some (.exited (.ok exitCode))) ∧ s' = s := by
  cases h with
  | moved => exact ⟨.inl rfl, rfl⟩
  | overtaken => exact ⟨.inr rfl, rfl⟩

theorem Scene.Serves.of_line {o : Output} {route : Route} {text : String} {r : Output × LineOutcome}
    (h : Serves id lines exitCode s (.line o route text) r s') : ∃ l : Heard, l.text = text ∧
      r = ((o.handle s.files l.text l.now l.instant).output,
        (o.handle s.files l.text l.now l.instant).outcome) ∧
      s' = ⟨(o.handle s.files l.text l.now l.instant).files, s.heard ++ [l]⟩ := by
  cases h
  exact ⟨_, rfl, rfl, rfl⟩

end Serves

/-! ### What it comes to -/

/-- The lines up to the first one that reports a failure, that one included. -/
def upToFailure : List String → List String
  | [] => []
  | text :: rest => if (failure? text).isSome then [text] else text :: upToFailure rest

namespace StepRun

/-- The report of the first line that reports a failure, or else the exit code. -/
def verdict (step : Nat) (exitCode : Int) (lines : List String) : Except StepError Int :=
  match lines.findSome? failure? with
  | some message => .error (.reported step message)
  | none => .ok exitCode

/-- Whether a step has handled the lines up to the first failure, from an output and some files on. -/
def Tells (step : Nat) (exitCode : Int) (u : Watched) (before : List Heard) (lines : List String)
    (s : Scene) (v : Verdict) : Prop :=
  ∃ heard, s.heard = before ++ heard ∧ heard.map (·.text) = upToFailure lines ∧
    v.1 = verdict step exitCode lines ∧ v.2 = (u.run heard).output ∧ s.files = (u.run heard).files

variable {step : Nat} {exitCode : Int} {u : Watched} {before : List Heard} {lines rest : List String}
  {s : Scene} {v : Verdict} {l : Heard}

theorem tells_nil (step : Nat) (exitCode : Int) (u : Watched) (before : List Heard) :
    Tells step exitCode u before [] ⟨u.files, before⟩ (.ok exitCode, u.output) :=
  ⟨[], (List.append_nil before).symm, rfl, rfl, rfl, rfl⟩

theorem tells_failed {message : String} (failed : failure? l.text = some message)
    (rest : List String) :
    Tells step exitCode u before (l.text :: rest) ⟨(u.hear l).files, before ++ [l]⟩
      (.error (.reported step message), (u.hear l).output) := by
  refine ⟨[l], rfl, ?_, ?_, ?_, ?_⟩
  · rw [upToFailure, failed]
    rfl
  · rw [verdict, List.findSome?_cons, failed]
  · rw [Watched.run_cons, Watched.run_nil]
  · rw [Watched.run_cons, Watched.run_nil]

theorem Tells.cons (goes : failure? l.text = none)
    (h : Tells step exitCode (u.hear l) (before ++ [l]) rest s v) :
    Tells step exitCode u before (l.text :: rest) s v := by
  obtain ⟨heard, all, texts, result, output, files⟩ := h
  refine ⟨l :: heard, ?_, ?_, ?_, ?_, ?_⟩
  · rw [all, List.append_assoc, List.singleton_append]
  · rw [List.map_cons, texts, upToFailure, goes]
    rfl
  · rw [result, verdict, verdict, List.findSome?_cons, goes]
  · rw [output, Watched.run_cons]
  · rw [files, Watched.run_cons]

variable {sup : Supervision}

/-- A line is handled at some time, and reports a failure or not. -/
theorem line_always {route : Route} {text : String} {next : Output × LineOutcome → Process Verdict}
    {post : Scene → Verdict → Prop} (u : Watched) (before : List Heard)
    (fails : ∀ l : Heard, l.text = text → ∀ message, failure? l.text = some message →
      (next ((u.hear l).output, .failed message)).Always (Scene.Serves sup.id lines exitCode) post
        ⟨(u.hear l).files, before ++ [l]⟩)
    (goes : ∀ l : Heard, l.text = text → failure? l.text = none →
      (next ((u.hear l).output, .continue)).Always (Scene.Serves sup.id lines exitCode) post
        ⟨(u.hear l).files, before ++ [l]⟩) :
    (Process.act (.line u.output route text) next).Always (Scene.Serves sup.id lines exitCode) post
      ⟨u.files, before⟩ := by
  refine ⟨⟨_, _, .line _ u.output route ⟨text, 0, 0⟩⟩, fun r s' answered => ?_⟩
  obtain ⟨l, same, rfl, rfl⟩ := answered.of_line
  have outcome := (u.output.handle_comes u.files l).2.2
  dsimp only
  rw [outcome, ← Watched.hear_output, ← Watched.hear_files]
  cases failure : failure? l.text with
  | some message => exact fails l same message failure
  | none => exact goes l same failure

/-- Where every line is handled and the stream of the lines closes in time, the lines that are left at the
end come to the same as the lines that come before it. -/
theorem drain_always (drainEnd : Nat) (left : List String) (u : Watched) (before : List Heard) :
    (drain sup exitCode drainEnd true u.output left).Always (Scene.Serves sup.id lines exitCode)
      (Tells sup.step exitCode u before left) ⟨u.files, before⟩ := by
  induction left generalizing u before with
  | nil =>
    refine ⟨⟨true, _, .drained _ drainEnd⟩, fun r s' answered => ?_⟩
    cases answered
    exact tells_nil sup.step exitCode u before
  | cons text rest ih =>
    refine ⟨⟨true, _, .drained _ drainEnd⟩, fun r s' answered => ?_⟩
    cases answered
    refine line_always u before ?_ ?_
    · rintro l rfl message failure
      exact tells_failed failure rest
    · rintro l rfl failure
      exact (ih (u.hear l) (before ++ [l])).mono fun _ _ tells => tells.cons failure

theorem finish_always (left : List String) (u : Watched) (before : List Heard) :
    (finish sup true u.output left (.exited (.ok exitCode))).Always
      (Scene.Serves sup.id lines exitCode) (Tells sup.step exitCode u before left)
      ⟨u.files, before⟩ := by
  refine ⟨⟨(0 : Nat), _, .timer _ drainTime 0⟩, fun drainEnd s' answered => ?_⟩
  cases answered
  exact drain_always drainEnd left u before

/-- What is left after a failure is that the container is stopped. -/
theorem stop_always {post : Scene → Verdict → Prop} (h : post s v) :
    ((stop sup).bind fun _ => .done v).Always (Scene.Serves sup.id lines exitCode) post s := by
  refine ⟨⟨.ok (), _, .stop s _⟩, fun r s' answered => ?_⟩
  cases answered
  exact h

/-- The end may come before any of the lines, or after all of them. -/
theorem follow_always (sup : Supervision) (left : List String) (u : Watched) (before : List Heard) :
    (follow sup true u.output left).Always (Scene.Serves sup.id lines exitCode)
      (Tells sup.step exitCode u before left) ⟨u.files, before⟩ := by
  induction left generalizing u before with
  | nil =>
    refine ⟨⟨none, _, .moved _ sup.watch sup.deadline⟩, fun r s' answered => ?_⟩
    obtain ⟨rfl | rfl, rfl⟩ := answered.of_awaitOutput
    · refine ⟨⟨_, _, .ended _ sup.watch sup.deadline⟩, fun r s' answered => ?_⟩
      cases answered
      exact finish_always [] u before
    · exact finish_always [] u before
  | cons text rest ih =>
    refine ⟨⟨none, _, .moved _ sup.watch sup.deadline⟩, fun r s' answered => ?_⟩
    obtain ⟨rfl | rfl, rfl⟩ := answered.of_awaitOutput
    · refine line_always u before ?_ ?_
      · rintro l rfl message failure
        exact stop_always (tells_failed failure rest)
      · rintro l rfl failure
        exact (ih (u.hear l) (before ++ [l])).mono fun _ _ tells => tells.cons failure
    · exact finish_always (text :: rest) u before

theorem supervise_always (step : Nat) (route : Route) (id : String) (timeout : Duration) (u : Watched)
    (lines : List String) (exitCode : Int) :
    (supervise step route id timeout u.output).Always (Scene.Serves id lines exitCode)
      (Tells step exitCode u [] lines) ⟨u.files, []⟩ := by
  refine ⟨⟨_, _, .logs _⟩, fun r s' answered => ?_⟩
  obtain ⟨rfl, rfl⟩ := answered.of_logs
  refine ⟨⟨(0 : Nat), _, .timer _ timeout 0⟩, fun deadline s' answered => ?_⟩
  cases answered
  refine ⟨⟨⟨id, 0⟩, _, .wait _ _⟩, fun watch s' answered => ?_⟩
  cases answered
  exact follow_always ⟨step, route, id, watch, timeout, deadline⟩ lines u []

/-- What a supervision comes to: the verdict, the lines that were handled, and what they left in the log, in
the variables and in the cached files. -/
structure Supervises (step : Nat) (exitCode : Int) (lines : List String) (o : Output)
    (logged : List UInt8) (content : CacheKind → List UInt8) (s : Scene) (v : Verdict) : Prop where
  result : v.1 = verdict step exitCode lines
  heard : s.heard.map (·.text) = upToFailure lines
  log : (v.2.flush s.files).2.read o.log.path = .ok (logged ++ s.heard.flatMap o.record)
  env : v.2.env = o.env ++ (upToFailure lines).filterMap announced?
  cached : ∀ k, ∃ held, s.files.read (Cache.path o.cacheDir k) = .ok held ∧
    Heard.Leave k (content k) s.heard held

end StepRun

namespace Watched

variable {o : Output} {files : Files} {content : CacheKind → List UInt8} {written : List UInt8}

/-- The cached files can be read only below a directory, so that the log is no root either. -/
theorem place_log_ne (readable : ∀ k, files.read (Cache.path o.cacheDir k) = .ok (content k))
    (logged : files.read o.log.path = .ok written) : files.place o.log.path ≠ .ok [] := by
  intro root
  obtain ⟨place, hp, found⟩ := Files.read_eq_ok.mp (readable .html)
  obtain ⟨above, rfl⟩ := Cache.place_path hp
  obtain ⟨place, hp', found'⟩ := Files.read_eq_ok.mp logged
  obtain rfl := Except.ok.inj (root.symm.trans hp')
  obtain ⟨es, directory, -⟩ := Node.get_concat found
  have file : files.root = .file written := Except.ok.inj found'
  rw [file] at directory
  cases above <;> exact nomatch directory

/-- A step may have sent messages before its first line. -/
theorem exists_shows (readable : ∀ k, files.read (Cache.path o.cacheDir k) = .ok (content k))
    (apart : ∀ k, files.place o.log.path ≠ files.place (Cache.path o.cacheDir k)) :
    ∃ sent, Shows o content ⟨o, files, sent⟩ := by
  cases h : o.lastClear with
  | none => exact ⟨[], ⟨rfl, rfl, rfl⟩, h, apart, readable⟩
  | some instant =>
    have clears : (o.progress .htmlTrunc "").clears = true := by
      rw [Progress.clears, Output.progress, Command.ofWord?_word]
      rfl
    refine ⟨[] ++ [(instant, o.progress .htmlTrunc "")], ⟨rfl, rfl, rfl⟩, ?_, apart, readable⟩
    rw [lastCleared_concat, if_pos clears]
    exact h

end Watched

open StepRun in
/-- However the lines of a container that ends come in with its end, a step goes on to its verdict: the
report of the first line that reports a failure, or else the exit code. The lines up to that one are handled
in order. Each that is not blank has its record in the log behind what was there, each that announces a
variable is kept, and the cached files have what was last put in their place and all appended later. -/
theorem supervise_any_order {o : Output} {files : Files} {content : CacheKind → List UInt8}
    {written : List UInt8}
    (readable : ∀ k, files.read (Cache.path o.cacheDir k) = .ok (content k))
    (logged : files.read o.log.path = .ok written)
    (apart : ∀ k, files.place o.log.path ≠ files.place (Cache.path o.cacheDir k))
    (step : Nat) (route : Route) (id : String) (timeout : Duration) (lines : List String)
    (exitCode : Int) :
    (∃ s v, (supervise step route id timeout o).Goes (Scene.Serves id lines exitCode)
      ⟨files, []⟩ s v) ∧
    ∀ s v, (supervise step route id timeout o).Goes (Scene.Serves id lines exitCode) ⟨files, []⟩ s v →
      Supervises step exitCode lines o (written ++ o.log.held.utf8) content s v := by
  obtain ⟨sent, shown⟩ := Watched.exists_shows readable apart
  have always := supervise_always step route id timeout ⟨o, files, sent⟩ lines exitCode
  refine ⟨always.exists_goes, fun s v goes => ?_⟩
  obtain ⟨heard, all, texts, result, output, after⟩ := always.of_goes goes
  rw [List.nil_append] at all
  subst all
  have stand := shown.run s.heard
  have held := shown.holds
    ⟨Watched.place_log_ne readable logged, written, logged, rfl⟩ s.heard
  constructor
  · exact result
  · exact texts
  · rw [output, after, ← stand.continues.log]
    exact held.flush.2
  · rw [output, Watched.run_env, ← texts, List.filterMap_map, Function.comp_def]
  · intro k
    rw [after]
    exact ⟨_, stand.read k, Heard.leave_effects k (content k) s.heard⟩

namespace Watched

/-- The cached files and the log are there and empty. -/
def opened : Files :=
  ⟨.directory [("run.log", .file []), ("cache.html", .file []), ("cache.css", .file []),
    ("cache.js", .file [])], ""⟩

theorem opened_readable (k : CacheKind) : opened.read (Cache.path quiet.cacheDir k) = .ok [] := by
  cases k <;> rfl

theorem opened_apart (k : CacheKind) :
    opened.place quiet.log.path ≠ opened.place (Cache.path quiet.cacheDir k) := by
  cases k <;> decide

/-- A variable and a failure, with a line behind them that nobody handles. -/
def aborted : List String := ["lemc.env; A=1 ", " lemc.err; no flour", "late"]

end Watched

open StepRun Watched in
theorem supervise_any_order_aborted :
    (∀ k, opened.read (Cache.path quiet.cacheDir k) = .ok []) ∧
    opened.read quiet.log.path = .ok [] ∧
    (∀ k, opened.place quiet.log.path ≠ opened.place (Cache.path quiet.cacheDir k)) ∧
    ∃ s v, (supervise 1 ⟨[], none⟩ "c-1" standardStepTimeout quiet).Goes
        (Scene.Serves "c-1" aborted 0) ⟨opened, []⟩ s v ∧
      v.1 = .error (.reported 1 "no flour") ∧ v.2.env = ["A=1"] := by
  obtain ⟨⟨s, v, goes⟩, all⟩ := @supervise_any_order quiet opened (fun _ => []) [] opened_readable rfl
    opened_apart 1 ⟨[], none⟩ "c-1" standardStepTimeout aborted 0
  have done := all s v goes
  refine ⟨opened_readable, rfl, opened_apart, s, v, goes, done.result.trans ?_, done.env.trans ?_⟩
  · decide
  · decide

end Galley
