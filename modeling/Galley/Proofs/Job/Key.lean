import Galley.Job.Key
/-!
# Keys of different queues

A key ends in the name of its queue, so that what is marked for one queue never stands for a task of
another.
-/
namespace Galley

/-- Whether a text is the key of some job in the queue for runs at once. -/
def IsNowKey (key : String) : Prop := ∃ job : Job, job.key .now = .ok key

namespace Job

/-- The last part of all keys of a queue. -/
def keyEnd (queue : QueueName) : List Char :=
  ("[queue:" ++ queue.text ++ "]").toList

theorem keyTail_eq (job : Job) (queue : QueueName) : job.keyTail queue =
    ("[page:" ++ job.pageId ++ "][uuid:" ++ job.uuid ++ "]") ++ ("[queue:" ++ queue.text ++ "]") := by
  have whole : job.keyTail queue =
      "[page:" ++ job.pageId ++ "][uuid:" ++ job.uuid ++ "][queue:" ++ queue.text ++ "]" := rfl
  have cut : "][queue:" = "]" ++ "[queue:" := by decide
  rw [whole, cut]
  simp only [String.append_assoc]

theorem keyEnd_suffix {job : Job} {queue : QueueName} {key : String}
    (h : job.key queue = .ok key) : keyEnd queue <:+ key.toList := by
  have tail : keyEnd queue <:+ (job.keyTail queue).toList := by
    rw [keyTail_eq, String.toList_append]
    exact List.suffix_append _ _
  have behind (s : String) : keyEnd queue <:+ (s ++ job.keyTail queue).toList := by
    rw [String.toList_append]
    exact tail.trans (List.suffix_append _ _)
  unfold Job.key at h
  split at h
  · exact nomatch h
  split at h
  · exact nomatch h
  · obtain rfl := Except.ok.inj h
    split <;> exact behind _

theorem key_ne {job job' : Job} {q q' : QueueName} {key key' : String} (hq : q ≠ q')
    (h : job.key q = .ok key) (h' : job'.key q' = .ok key') : key ≠ key' := by
  rintro rfl
  have last := List.suffix_or_suffix_of_suffix (keyEnd_suffix h) (keyEnd_suffix h')
  cases q <;> cases q' <;> first | exact hq rfl | exact absurd last (by decide)

theorem not_isNowKey {job : Job} {q : QueueName} {key : String} (hq : q ≠ .now)
    (h : job.key q = .ok key) : ¬ IsNowKey key := fun ⟨_, h'⟩ =>
  key_ne hq h h' rfl

/-- Whether a job has a key does not depend on the queue. -/
theorem exists_key {job : Job} {q : QueueName} {key : String} (h : job.key q = .ok key)
    (q' : QueueName) : ∃ key', job.key q' = .ok key' := by
  unfold Job.key at h ⊢
  split at h
  · exact nomatch h
  split at h
  · exact nomatch h
  · next scope hs _ kind id ho => exact ⟨_, rfl⟩

end Job

end Galley
