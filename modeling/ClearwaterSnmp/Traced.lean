import Mathlib.Control.Monad.Writer
import Mathlib.Data.List.Basic

namespace ClearwaterSnmp

universe u

/-- A computation that may fail, and that leaves a trace of events, oldest first. -/
abbrev Traced (ε α : Type u) := OptionT (Writer (List ε)) α

namespace Traced

variable {ε α β : Type u}

def result (x : Traced ε α) : Option α := x.run.run.1

def trace (x : Traced ε α) : List ε := x.run.run.2

/-- The one event `e`, and a result that may be missing. -/
def event (e : ε) (result : Option α) : Traced ε α := OptionT.mk (WriterT.mk (result, [e]))

@[simp] theorem trace_event (e : ε) (r : Option α) : (event e r).trace = [e] := rfl

@[simp] theorem trace_pure (a : α) : (pure a : Traced ε α).trace = [] := rfl

theorem run_bind_eq (x : Traced ε α) (f : α → Traced ε β) :
    (x >>= f).run.run = match x.result with
      | some a => ((f a).result, x.trace ++ (f a).trace)
      | none => (none, x.trace) := by
  obtain ⟨r, w⟩ := x
  cases r with
  | none => exact Prod.ext rfl (List.append_nil w)
  | some a => rfl

@[simp] theorem result_bind (x : Traced ε α) (f : α → Traced ε β) :
    (x >>= f).result = x.result.bind fun a => (f a).result := by
  rw [result, run_bind_eq]
  cases x.result <;> rfl

theorem trace_bind {x : Traced ε α} {a : α} (h : x.result = some a) (f : α → Traced ε β) :
    (x >>= f).trace = x.trace ++ (f a).trace := by
  rw [trace, run_bind_eq, h]

/-- Two computations have the same result if they do at each step. -/
theorem result_bind_congr {x : Traced ε α} {r : Option α} {f : α → Traced ε β}
    {g : α → Option β} (hx : x.result = r) (hf : ∀ a, r = some a → (f a).result = g a) :
    (x >>= f).result = r >>= g := by
  rw [result_bind, hx]
  exact Option.bind_congr hf

theorem result_bind_of_eq_some {x : Traced ε α} {a : α} (h : x.result = some a)
    (f : α → Traced ε β) : (x >>= f).result = (f a).result := by
  rw [result_bind, h, Option.bind_some]

/-- Every event meets `P`, and there is a result, which meets `Q`. -/
structure Meets (P : ε → Prop) (Q : α → Prop) (x : Traced ε α) : Prop where
  events : ∀ e ∈ x.trace, P e
  returns : ∃ a, x.result = some a ∧ Q a

variable {P : ε → Prop} {Q Q' : α → Prop} {R : β → Prop}

theorem Meets.imp {x : Traced ε α} (hx : Meets P Q x) (h : ∀ a, Q a → Q' a) : Meets P Q' x := by
  obtain ⟨a, hr, ha⟩ := hx.returns
  exact ⟨hx.events, a, hr, h a ha⟩

theorem meets_pure {a : α} (ha : Q a) : Meets P Q (pure a : Traced ε α) :=
  ⟨by simp, a, rfl, ha⟩

theorem meets_event {e : ε} {a : α} (he : P e) (ha : Q a) : Meets P Q (event e (some a)) :=
  ⟨by simpa using he, a, rfl, ha⟩

theorem Meets.bind {x : Traced ε α} {f : α → Traced ε β} (hx : Meets P Q x)
    (hf : ∀ a, Q a → Meets P R (f a)) : Meets P R (x >>= f) := by
  obtain ⟨a, hr, ha⟩ := hx.returns
  have hnext : Meets P R (f a) := hf a ha
  constructor
  · intro e he
    rw [trace_bind hr, List.mem_append] at he
    exact he.elim (hx.events e) (hnext.events e)
  · obtain ⟨b, hb, hR⟩ := hnext.returns
    refine ⟨b, ?_, hR⟩
    rw [result_bind_of_eq_some hr, hb]

end Traced
end ClearwaterSnmp
