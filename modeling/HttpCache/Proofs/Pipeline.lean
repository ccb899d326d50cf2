import HttpCache.Pipeline

/-!
# HttpCache.Proofs.Pipeline

A pipeline on one part of a larger state, and a pipeline that keeps a list of its requests.

* `Layer.on`: a layer on one part of a state. Nested layers on a part are the nested layers, on
  that part (`nest_on`).
* `Pipeline.recorded`: the same pipeline, below a layer that notes each request.
* `handle_recorded`: apart from its note, a recorded pipeline does what the pipeline does.
-/

namespace HttpCache

variable {σ τ α β : Type}

/-- A part that can be read and replaced without regard to the rest of the state. -/
structure Part.Lawful (part : Part σ τ) : Prop where
  set_get : ∀ s, part.set (part.get s) s = s
  get_set : ∀ t s, part.get (part.set t s) = t
  set_set : ∀ t t' s, part.set t' (part.set t s) = part.set t' s

namespace Act

variable {part : Part σ τ}

theorem on_pure (hp : part.Lawful) (a : α) : (pure a : Act τ α).on part = pure a := by
  funext s
  simp [Act.on, hp.set_get]

theorem on_bind (hp : part.Lawful) (x : Act τ α) (f : α → Act τ β) :
    (x >>= f).on part = x.on part >>= fun a => (f a).on part := by
  funext s
  simp [Act.on, hp.get_set, hp.set_set]

end Act

def Step.on (part : Part σ τ) : Step τ → Step σ
  | .answer response => .answer response
  | .forward c after => .forward c fun response => (after response).on part

def Layer.on (part : Part σ τ) (layer : Layer τ) : Layer σ := fun c => do
  let step ← (layer c).on part
  pure (step.on part)

theorem Layer.around_on {part : Part σ τ} (hp : part.Lawful) (layer : Layer τ)
    (inner : Context → Act τ Response) (c : Context) :
    (layer.on part).around (fun c => (inner c).on part) c = (layer.around inner c).on part := by
  simp only [Layer.around, Layer.on, Act.on_bind hp, bind_assoc, pure_bind]
  refine bind_congr fun step => ?_
  cases step with
  | answer response => exact (Act.on_pure hp response).symm
  | forward c after => exact (Act.on_bind hp _ _).symm

namespace Pipeline

theorem nest_on {part : Part σ τ} (hp : part.Lawful) (layers : List (Layer τ)) (c : Context) :
    nest (layers.map (Layer.on part)) c = (nest layers c).on part := by
  induction layers generalizing c with
  | nil => exact (Act.on_pure hp fallback).symm
  | cons layer layers ih =>
    have hinner : nest (layers.map (Layer.on part)) = fun c => (nest layers c).on part := funext ih
    rw [List.map_cons, nest, nest, hinner, Layer.around_on hp]

end Pipeline

/-! ## A list of the requests -/

structure Recorded (σ : Type) where
  state : σ
  /-- The requests so far, in order. -/
  requests : List Request

namespace Recorded

def part : Part (Recorded σ) σ := ⟨Recorded.state, fun s r => { r with state := s }⟩

theorem lawful_part : (part : Part (Recorded σ) σ).Lawful where
  set_get _ := rfl
  get_set _ _ := rfl
  set_set _ _ _ := rfl

def note (request : Request) (r : Recorded σ) : Recorded σ :=
  { r with requests := r.requests ++ [request] }

/-- A layer that notes a request on its way down. -/
def layer : Layer (Recorded σ) := fun c => do
  .change (note c.request)
  pure (.forward c pure)

end Recorded

namespace Pipeline

def recorded (p : Pipeline σ) : Pipeline (Recorded σ) :=
  ⟨Recorded.layer :: p.layers.map (Layer.on Recorded.part)⟩

theorem handle_recorded (p : Pipeline σ) (request : Request) (s : σ) (past : List Request) :
    p.recorded.handle request ⟨s, past⟩ =
      ⟨(p.handle request s).value, ⟨(p.handle request s).state, past ++ [request]⟩,
        (p.handle request s).events⟩ := by
  rw [handle_eq_nest, handle_eq_nest, recorded, nest, Layer.around, Recorded.layer]
  simp only [bind_assoc, pure_bind, bind_pure, nest_on Recorded.lawful_part]
  rfl

end Pipeline
end HttpCache
