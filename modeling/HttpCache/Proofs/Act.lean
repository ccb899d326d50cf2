import HttpCache.Act

/-!
# HttpCache.Proofs.Act

What an action does, apart from its reports: `Runs x s a s'` says that `x` takes `s` to `s'` and
gives `a`. A fact about a longer action is put together from facts about its parts.
-/

namespace HttpCache

/-- The action takes `s` to `s'` and gives `a`, whatever it reports. -/
def Act.Runs {σ α : Type} (x : Act σ α) (s : σ) (a : α) (s' : σ) : Prop :=
  ∃ events, x s = ⟨a, s', events⟩

namespace Act.Runs

variable {σ α β : Type} {s s' s'' : σ}

theorem value {x : Act σ α} {a : α} (h : Runs x s a s') : (x s).value = a := by
  obtain ⟨events, h⟩ := h
  rw [h]

theorem state {x : Act σ α} {a : α} (h : Runs x s a s') : (x s).state = s' := by
  obtain ⟨events, h⟩ := h
  rw [h]

theorem self (x : Act σ α) (s : σ) : Runs x s (x s).value (x s).state := ⟨(x s).events, rfl⟩

theorem pure (a : α) (s : σ) : Runs (Pure.pure a) s a s := ⟨[], rfl⟩

theorem read (f : σ → α) (s : σ) : Runs (Act.read f) s (f s) s := ⟨[], rfl⟩

theorem change (f : σ → σ) (s : σ) : Runs (Act.change f) s () (f s) := ⟨[], rfl⟩

theorem report (e : Event) (s : σ) : Runs (Act.report e) s () s := ⟨[e], rfl⟩

theorem bind {x : Act σ α} {f : α → Act σ β} {a : α} {b : β} (hx : Runs x s a s')
    (hf : Runs (f a) s' b s'') : Runs (x >>= f) s b s'' := by
  obtain ⟨first, hx⟩ := hx
  obtain ⟨second, hf⟩ := hf
  exact ⟨first ++ second, by rw [bind_apply, hx, hf]⟩

/-- An action on a part of a state does to that part what it does to it alone. -/
theorem on {τ : Type} {part : Part σ τ} {x : Act τ α} {a : α} {t : τ}
    (h : Runs x (part.get s) a t) : Runs (x.on part) s a (part.set t s) := by
  obtain ⟨events, h⟩ := h
  exact ⟨events, by simp only [Act.on, h]⟩

end Act.Runs
end HttpCache
