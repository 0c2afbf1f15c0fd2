import Mathlib.Data.List.Infix

namespace ClearwaterSnmp.Multipart

variable {α : Type*}

/-- The parts of a message, each with whether more are to follow. -/
def encode : List α → List (α × Bool)
  | [] => []
  | [a] => [(a, false)]
  | a :: b :: m => (a, true) :: encode (b :: m)

/-- The messages that are complete, and the parts of the one that is not. -/
structure Assembly (α : Type*) where
  whole : List (List α)
  rest : List α

/-- The next part. -/
def push (s : Assembly α) (part : α × Bool) : Assembly α :=
  if part.2 then ⟨s.whole, s.rest ++ [part.1]⟩ else ⟨s.whole ++ [s.rest ++ [part.1]], []⟩

def assemble (parts : List (α × Bool)) : Assembly α := parts.foldl push ⟨[], []⟩

theorem assemble_concat (parts : List (α × Bool)) (part : α × Bool) :
    assemble (parts ++ [part]) = push (assemble parts) part := by
  rw [assemble, List.foldl_append]
  rfl

theorem foldl_push_encode {m : List α} (hm : m ≠ []) (s : Assembly α) :
    (encode m).foldl push s = ⟨s.whole ++ [s.rest ++ m], []⟩ := by
  induction m generalizing s with
  | nil => exact absurd rfl hm
  | cons a m ih =>
    cases m with
    | nil => rfl
    | cons b m =>
      rw [encode, List.foldl_cons, ih (List.cons_ne_nil b m)]
      simp [push]

/-- Messages that are sent part by part arrive as they were. -/
theorem assemble_flatMap_encode {ms : List (List α)} (hms : ∀ m ∈ ms, m ≠ []) :
    assemble (ms.flatMap encode) = ⟨ms, []⟩ := by
  -- from the end, since messages are appended
  induction ms using List.reverseRecOn with
  | nil => rfl
  | append_singleton ms m ih =>
    rw [assemble, List.flatMap_append, List.foldl_append]
    change (List.flatMap encode [m]).foldl push (assemble (ms.flatMap encode)) = _
    rw [ih fun m' hm' => hms m' (List.mem_append_left _ hm'), List.flatMap_singleton,
      foldl_push_encode (hms m (by simp))]
    rfl

theorem whole_ne_nil (parts : List (α × Bool)) : ∀ m ∈ (assemble parts).whole, m ≠ [] := by
  induction parts using List.reverseRecOn with
  | nil => simp [assemble]
  | append_singleton parts part ih =>
    rw [assemble_concat, push]
    split
    · exact ih
    · intro m hm
      rcases List.mem_append.mp hm with hm | hm
      · exact ih m hm
      · rw [List.mem_singleton.mp hm]
        simp

theorem whole_isPrefix_push (s : Assembly α) (part : α × Bool) :
    s.whole <+: (push s part).whole := by
  unfold push
  split
  · exact List.prefix_refl _
  · exact List.prefix_append _ _

theorem whole_isPrefix {parts parts' : List (α × Bool)} (h : parts <+: parts') :
    (assemble parts).whole <+: (assemble parts').whole := by
  obtain ⟨later, rfl⟩ := h
  induction later using List.reverseRecOn with
  | nil => rw [List.append_nil]
  | append_singleton later part ih =>
    rw [← List.append_assoc, assemble_concat]
    exact ih.trans (whole_isPrefix_push _ part)

end ClearwaterSnmp.Multipart
