import HttpCache.Act
import HttpCache.Context
import HttpCache.Message.Response

/-!
# HttpCache.Pipeline

Layers around the handling of a request, the first one outermost.

* `Step` — what a layer decides: to answer by itself, or to let the layers below it answer, once,
  and to make its own answer out of theirs.
* `Pipeline.handle` — moves a cursor over the layers; past the last one there is a fixed answer.
* `Pipeline.nest` — the same as layers wrapped around one another (`handle_eq_nest`).
-/

namespace HttpCache

inductive Step (σ : Type) where
  /-- Answers without the layers below. -/
  | answer (response : Response)
  /-- Hands a request down and turns the answer into another one. -/
  | forward (context : Context) (after : Response → Act σ Response)

abbrev Layer (σ : Type) : Type := Context → Act σ (Step σ)

namespace Layer

variable {σ : Type}

def endpoint (handler : Context → Act σ Response) : Layer σ := fun c => do
  let response ← handler c
  pure (.answer response)

/-- A layer that only looks at the request on its way down. -/
def passing (change : Context → Context) : Layer σ := fun c => pure (.forward (change c) pure)

/-- A layer around whatever handles the requests that it hands down. -/
def around (layer : Layer σ) (inner : Context → Act σ Response) : Context → Act σ Response :=
  fun c => do
    match ← layer c with
    | .answer response => pure response
    | .forward c after => do
      let response ← inner c
      after response

end Layer

structure Pipeline (σ : Type) where
  layers : List (Layer σ)

namespace Pipeline

variable {σ : Type}

def empty : Pipeline σ := ⟨[]⟩

/-- Adds a layer below all others. -/
def push (p : Pipeline σ) (layer : Layer σ) : Pipeline σ := ⟨p.layers ++ [layer]⟩

def size (p : Pipeline σ) : Nat := p.layers.length

def isEmpty (p : Pipeline σ) : Bool := p.layers.isEmpty

def fallback : Response :=
  .ofText .internalServerError "No response generated by middleware pipeline"

def handleFrom (layers : List (Layer σ)) (index : Nat) (c : Context) : Act σ Response :=
  if h : index < layers.length then do
    match ← layers[index] c with
    | .answer response => pure response
    | .forward c after => do
      let response ← handleFrom layers (index + 1) c
      after response
  else pure fallback
  termination_by layers.length - index

def handle (p : Pipeline σ) (request : Request) : Act σ Response :=
  handleFrom p.layers 0 (.ofRequest request)

def nest : List (Layer σ) → Context → Act σ Response
  | [] => fun _ => pure fallback
  | layer :: rest => layer.around (nest rest)

theorem handleFrom_eq_nest (layers : List (Layer σ)) (index : Nat) (c : Context) :
    handleFrom layers index c = nest (layers.drop index) c := by
  fun_induction handleFrom layers index c with
  | case1 index c h ih =>
    rw [List.drop_eq_getElem_cons h]
    simp only [nest, Layer.around]
    congr 1
    funext step
    cases step with
    | answer response => rfl
    | forward c after => simp only [ih]
  | case2 index c h =>
    rw [List.drop_eq_nil_of_le (Nat.le_of_not_lt h)]
    rfl

theorem handle_eq_nest (p : Pipeline σ) (request : Request) :
    p.handle request = nest p.layers (.ofRequest request) :=
  handleFrom_eq_nest p.layers 0 _

end Pipeline
end HttpCache
