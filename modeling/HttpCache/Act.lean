import HttpCache.Event
import HttpCache.Time

/-!
# HttpCache.Act

Actions that may change a state and report events.

* `Outcome` — the value, the state afterwards, and the reports in order.
* `Act σ α` — an action; actions form a lawful monad, whose `bind` runs one action after another.
* `Clock σ` — how a state shows the wall clock, and what waiting does to it.
* `Act.on` — an action on one part of a state.
-/

namespace HttpCache

structure Outcome (σ α : Type) where
  value : α
  state : σ
  /-- What was reported, in order. -/
  events : List Event

def Act (σ α : Type) : Type := σ → Outcome σ α

namespace Act

variable {σ τ α β : Type}

@[ext] theorem ext {x y : Act σ α} (h : ∀ s, x s = y s) : x = y := funext h

protected def pure (a : α) : Act σ α := fun s => ⟨a, s, []⟩

protected def bind (x : Act σ α) (f : α → Act σ β) : Act σ β := fun s =>
  let first := x s
  let second := f first.value first.state
  ⟨second.value, second.state, first.events ++ second.events⟩

instance : Monad (Act σ) where
  pure := Act.pure
  bind := Act.bind

def read (f : σ → α) : Act σ α := fun s => ⟨f s, s, []⟩

def change (f : σ → σ) : Act σ Unit := fun s => ⟨(), f s, []⟩

def report (e : Event) : Act σ Unit := fun s => ⟨(), s, [e]⟩

@[simp] theorem pure_apply (a : α) (s : σ) : (pure a : Act σ α) s = ⟨a, s, []⟩ := rfl

@[simp] theorem bind_apply (x : Act σ α) (f : α → Act σ β) (s : σ) :
    (x >>= f) s =
      ⟨(f (x s).value (x s).state).value, (f (x s).value (x s).state).state,
        (x s).events ++ (f (x s).value (x s).state).events⟩ := rfl

@[simp] theorem read_apply (f : σ → α) (s : σ) : read f s = ⟨f s, s, []⟩ := rfl

@[simp] theorem change_apply (f : σ → σ) (s : σ) : change f s = ⟨(), f s, []⟩ := rfl

@[simp] theorem report_apply (e : Event) (s : σ) : (report e : Act σ Unit) s = ⟨(), s, [e]⟩ := rfl

protected theorem id_map (x : Act σ α) : id <$> x = x := by
  funext s
  simp [Functor.map, Act.bind, Act.pure, Function.comp]

protected theorem pure_bind (a : α) (f : α → Act σ β) : pure a >>= f = f a := by
  funext s
  simp

protected theorem bind_assoc {γ : Type} (x : Act σ α) (f : α → Act σ β) (g : β → Act σ γ) :
    x >>= f >>= g = x >>= fun a => f a >>= g := by
  funext s
  simp [List.append_assoc]

instance : LawfulMonad (Act σ) := .mk' _ Act.id_map Act.pure_bind Act.bind_assoc

end Act

/-- A part of a state, with the way to put another one in its place. -/
structure Part (σ τ : Type) where
  get : σ → τ
  set : τ → σ → σ

def Act.on {σ τ α : Type} (part : Part σ τ) (x : Act τ α) : Act σ α := fun s =>
  let out := x (part.get s)
  ⟨out.value, part.set out.state s, out.events⟩

/-- How a state shows the wall clock, and what waiting does to it. -/
structure Clock (σ : Type) where
  /-- The wall clock in Unix seconds. -/
  wall : σ → Int
  /-- Lets a span of time pass. -/
  elapse : Span → σ → σ

end HttpCache
