import HttpCache.Sink.Basic

/-!
# HttpCache.Proofs.Sink.Metered

What a sink has taken, for any sink at all.

* `Metered` — a sink together with the octets that it has said to have taken; to everyone in
  front of it, it is the same sink.
* `Metered.writeAll_eq`, `Sink.writeAll_ok_iff` — a chunk that is written in one go.
* `Scripted` — a sink that refuses some chunks and takes only the beginning of others.
-/

namespace HttpCache

/-- The octets of a chunk that a sink has taken, by its answer. -/
def WriteError.taken (chunk : Bytes) : Except WriteError Nat → Bytes
  | .ok n => chunk.take n
  | .error _ => []

structure Metered (τ : Type) where
  sink : τ
  /-- What the sink has taken, in order. -/
  taken : Bytes
  deriving DecidableEq, Repr

variable {τ : Type} [Sink τ]

namespace Metered

def start (sink : τ) : Metered τ := ⟨sink, []⟩

instance : Sink (Metered τ) where
  headers m := Sink.headers m.sink
  setHeaders h m := { m with sink := Sink.setHeaders h m.sink }
  status m := Sink.status m.sink
  writeStatus status m := { m with sink := Sink.writeStatus status m.sink }
  write chunk m :=
    let answer := Sink.write chunk m.sink
    (answer.1, ⟨answer.2, m.taken ++ WriteError.taken chunk answer.1⟩)

end Metered

theorem Sink.writeAll_ok_iff {short : WriteError} {chunk : Bytes} {t : τ} :
    (Sink.writeAll short chunk t).1 = .ok () ↔ (Sink.write chunk t).1 = .ok chunk.length := by
  unfold Sink.writeAll
  split
  · rename_i e t' h
    simp [h]
  · rename_i n t' h
    split
    · rename_i hn
      simp [h, hn]
    · rename_i hn
      simp [h, hn]

/-- A chunk goes into a metered sink as it goes into the sink. -/
theorem Metered.writeAll_eq (short : WriteError) (chunk : Bytes) (m : Metered τ) :
    Sink.writeAll short chunk m =
      ((Sink.writeAll short chunk m.sink).1,
        ⟨(Sink.writeAll short chunk m.sink).2,
          m.taken ++ WriteError.taken chunk (Sink.write chunk m.sink).1⟩) := by
  have hwrite : Sink.write chunk m =
      ((Sink.write chunk m.sink).1,
        ⟨(Sink.write chunk m.sink).2,
          m.taken ++ WriteError.taken chunk (Sink.write chunk m.sink).1⟩) := rfl
  unfold Sink.writeAll
  rw [hwrite]
  cases h : Sink.write chunk m.sink with
  | mk answer t =>
    cases answer with
    | error e => rfl
    | ok n =>
      simp only
      split
      · rfl
      · rfl

/-- All of a chunk that is written in one go without an error has been taken. -/
theorem Metered.taken_of_writeAll {short : WriteError} {chunk : Bytes} {m m' : Metered τ}
    (h : Sink.writeAll short chunk m = (.ok (), m')) : m'.taken = m.taken ++ chunk := by
  rw [writeAll_eq, Prod.mk.injEq] at h
  obtain ⟨hok, rfl⟩ := h
  rw [Sink.writeAll_ok_iff.mp hok, WriteError.taken, List.take_length]

/-! ## A sink with faults -/

structure Scripted where
  buffer : Buffer
  /-- What becomes of the next chunks: each is refused, or so many of its octets are taken at most.
  The chunks after these are taken whole. -/
  plan : List (Option Nat)
  deriving DecidableEq, Repr

namespace Scripted

def write (chunk : Bytes) (s : Scripted) : Except WriteError Nat × Scripted :=
  match s.plan with
  | [] => (.ok chunk.length, ⟨(s.buffer.write chunk).2, []⟩)
  | none :: plan => (.error (.refused "sink closed"), ⟨s.buffer, plan⟩)
  | some n :: plan => (.ok (min n chunk.length), ⟨(s.buffer.write (chunk.take n)).2, plan⟩)

instance : Sink Scripted where
  headers s := s.buffer.headers
  setHeaders h s := { s with buffer := { s.buffer with headers := h } }
  status s := s.buffer.status
  writeStatus status s := { s with buffer := s.buffer.writeStatus status }
  write := Scripted.write

def empty (plan : List (Option Nat)) : Scripted := ⟨.empty, plan⟩

end Scripted
end HttpCache
