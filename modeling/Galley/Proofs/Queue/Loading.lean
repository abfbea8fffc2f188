import Galley.Proofs.Queue.Stock
/-!
# Tasks that come from records

What is read from a record that somebody else may have written. Main statement: a task that comes from a
record may be filed in the queue as it is, and it comes back unchanged from the record that is written then.
-/
namespace Galley

open Json Json.Fields Json.Decoder

/-! ### Ranges of numbers -/

theorem Step.decode_yields : Step.decode.Yields Step.InRange :=
  yields_record <| .seq (.any _) <| .seq (.any _) <| .seq (.any _) <| .seq (.any _) <|
    .seq (.any _) <| .seq (.any _) <| .seq (.any _) <| .seq (.any _) <| .seq (.any _) <|
    .map (yields_field (yields_nat _ _)) <| by
      intros
      assumption

theorem Recipe.decode_yields : Recipe.decode.Yields Recipe.InRange :=
  yields_record <| .seq (yields_fieldD (yields_list Step.decode_yields) (by simp)) <|
    .seq (.any _) <| .seq (.any _) <| .map (.any _) <| by
      intros
      assumption

theorem Job.decode_yields : Job.decode.Yields Job.InRange :=
  yields_record <| .seq (yields_fieldD (yields_list (yields_integer _ _ _)) (by simp)) <|
    .seq (yields_field Recipe.decode_yields) <|
    .seq (yields_fieldD (yields_nat _ _) (Nat.zero_le _)) <| .seq (.any _) <| .seq (.any _) <|
    .seq (.any _) <| .seq (.any _) <| .seq (.any _) <| .seq (.any _) <| .seq (.any _) <|
    .seq (.any _) <| .seq (.any _) <| .map (.any _) <| by
      intros
      constructor <;> assumption

theorem StepJob.decode_yields : StepJob.decode.Yields StepJob.InRange :=
  yields_record <| .seq (yields_field Job.decode_yields) <|
    .map (yields_field Step.decode_yields) fun _ step _ job => ⟨step, job⟩

theorem Options.decode_yields : Options.decode.Yields Options.InRange :=
  yields_record <| .seq (.any _) <| .seq (.any _) <| .seq (yields_field (yields_nat _ _)) <|
    .map (yields_field (yields_nat _ _)) <| by
      intros
      constructor <;> assumption

namespace Record

theorem decodeTask_yields (q : QueueName) : (decodeTask q).Yields Task.InRange := by
  cases q with
  | now => exact Job.decode_yields.map fun _ job => job
  | delayed => exact StepJob.decode_yields.map fun _ step => step
  | recurring => exact StepJob.decode_yields.map fun _ step => step

/-- What the numbers of a record that was read are known to fit in. -/
structure Raw.InRange (raw : Raw) : Prop where
  task : raw.task.InRange
  options : ∀ o ∈ raw.options, o.InRange
  early : Text.Numeral.minI64 ≤ raw.nextRun
  late : raw.nextRun ≤ Text.Numeral.maxI64

theorem decodeRaw_yields (q : QueueName) : (decodeRaw q).Yields Raw.InRange :=
  yields_record <| .seq (yields_field (yields_integer _ _ _)) <| .seq (.any _) <|
    .seq (yields_fieldWith (yields_option Options.decode_yields) (by simp)) <| .seq (.any _) <|
    .seq (.any _) <| .seq (.any _) <| .map (yields_field (decodeTask_yields q)) <| by
      rintro task inRange _ - _ - _ - options all _ - time ⟨early, late⟩
      exact ⟨inRange, all, early, late⟩

end Record

/-! ### Durations -/

theorem Duration.read?_le {cs : List Char} {d : Duration} (h : read? cs = some d) :
    d.nanos ≤ Text.Numeral.maxU64 := by
  unfold read? at h
  extract_lets body at h
  split at h
  · obtain rfl := Option.some.inj h
    exact Nat.zero_le _
  · split at h
    · exact nomatch h
    · obtain ⟨n, total, rfl⟩ := Option.map_eq_some_iff.mp h
      exact of_decide_eq_true (Option.filter_eq_some_iff.mp total).2

theorem Duration.parse_le {s : String} {d : Duration} (h : Duration.parse s = .ok d) :
    d.nanos ≤ Text.Numeral.maxU64 := by
  unfold Duration.parse at h
  split at h
  · next found => exact Except.ok.inj h ▸ Duration.read?_le found
  · exact nomatch h

theorem Trigger.parse_le {s : String} {t : Trigger} (h : Trigger.parse s = .ok t) :
    t.duration.nanos ≤ Text.Numeral.maxU64 := by
  obtain ⟨kind, duration, more, d, -, read, parts⟩ := Trigger.parse_eq_ok_iff.mp h
  rcases parts with ⟨-, rfl⟩ | ⟨-, rfl⟩
  · exact Duration.parse_le read
  · exact Duration.parse_le read

/-! ### Tasks -/

/-- What comes from a record of a queue may be filed in it as it is. -/
theorem QueueDirectory.storable_of_load {q : QueueName} {bytes : List UInt8} {f : Filed}
    (h : load q bytes = .ok f) : f.Storable q ∧ f.capped = f := by
  unfold load at h
  split at h
  · exact nomatch h
  · next g decoded =>
    obtain ⟨_, check, rfl⟩ := map_eq_ok.mp h
    obtain ⟨raw, t, ⟨j, -, read⟩, parsed, rfl⟩ := Record.decode_eq_ok_iff.mp decoded
    have range := Record.decodeRaw_yields q read
    refine ⟨⟨⟨range.task, ?_, range.early, range.late⟩, check⟩, ?_⟩
    · cases given : raw.options with
      | none => exact Options.default_inRange
      | some o => exact range.options o given
    · exact Filed.capped_eq_self (Trigger.parse_le parsed)

/-- What came from a record comes back from the record that is written anew, at another time. -/
theorem QueueDirectory.load_bytes_of_load {q : QueueName} {bytes : List UInt8} {f : Filed}
    (h : load q bytes = .ok f) {t : Int} (early : Text.Numeral.minI64 ≤ t)
    (late : t ≤ Text.Numeral.maxI64) :
    load q (Record.bytes { f with nextRun := t }) = .ok { f with nextRun := t } := by
  obtain ⟨storable, whole⟩ := storable_of_load h
  have capped : ({ f with nextRun := t } : Filed).capped = { f with nextRun := t } := by
    rw [Filed.capped]
    exact congrArg (Filed.mk _ _ _ _ · _) (congrArg Filed.trigger whole)
  rw [(storable.withNextRun early late).load_bytes, capped]

end Galley
