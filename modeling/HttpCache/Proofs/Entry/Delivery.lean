import HttpCache.Entry.Replay
import HttpCache.Proofs.Sink.Metered

/-!
# HttpCache.Proofs.Entry.Delivery

What a sink has taken of a body when its replay reports no error.

* `Response.opened`, `Entry.opened` — the sink in front of the body, with headers and status.
* `Response.replay_ok_iff`, `Entry.replay_ok_iff` — when a replay reports no error.
* `Response.taken_replay`, `Entry.taken_replay` — what the sink has taken then.
* `Sink.Impartial` — sinks whose answers to a chunk depend on nothing else that they are given.
* `Entry.delivered_of_replay` — the replay of a response has delivered all of it, while the replay
  of an entry does not see that a sink takes too little.
-/

namespace HttpCache

variable {τ : Type} [Sink τ]

@[simp] theorem WriteError.taken_nil (answer : Except WriteError Nat) :
    WriteError.taken [] answer = [] := by
  cases answer with
  | error e => rfl
  | ok n => exact List.take_nil

/-! ## Responses -/

namespace Response

/-- The sink when all but the body of a response has been sent into it. -/
def opened (r : Response) (t : τ) : τ :=
  Sink.writeStatus r.status (Sink.modifyHeaders (·.append r.headers.fields) t)

theorem replay_eq (r : Response) (t : τ) :
    r.replay t = if r.body.isEmpty then (.ok (), r.opened t)
      else Sink.writeAll .shortReplay r.body (r.opened t) := rfl

theorem replay_ok_iff {r : Response} {t : τ} :
    (r.replay t).1 = .ok () ↔
      r.body = [] ∨ (Sink.write r.body (r.opened t)).1 = .ok r.body.length := by
  rw [replay_eq]
  cases hbody : r.body with
  | nil => simp
  | cons b body => simp [Sink.writeAll_ok_iff]

theorem taken_replay (r : Response) (t : τ) :
    (r.replay (Metered.start t)).2.taken =
      WriteError.taken r.body (Sink.write r.body (r.opened t)).1 := by
  rw [replay_eq]
  split
  · rename_i hbody
    rw [List.isEmpty_iff.mp hbody, WriteError.taken_nil]
    rfl
  · rw [Metered.writeAll_eq]
    rfl

end Response

/-! ## Entries -/

namespace Entry

/-- The sink when all but the body of an entry has been sent into it. -/
def opened (e : Entry) (merge : HeaderMerge) (t : τ) : τ :=
  Sink.writeStatus e.statusOrOk (Sink.modifyHeaders (mergeHeaders e.headers merge) t)

theorem replay_nil {e : Entry} (h : e.body = []) (merge : HeaderMerge) (t : τ) :
    e.replay merge t = (.ok (), e.opened merge t) := by
  rw [replay, h]
  rfl

theorem replay_cons {e : Entry} (h : e.body ≠ []) (merge : HeaderMerge) (t : τ) :
    e.replay merge t =
      ((Sink.write e.body (e.opened merge t)).1.map fun _ => (),
        (Sink.write e.body (e.opened merge t)).2) := by
  have hempty : e.body.isEmpty = false := by simpa using h
  rw [replay, hempty, if_neg Bool.false_ne_true]
  split
  · rename_i hwrite
    rw [opened, hwrite]
    rfl
  · rename_i hwrite
    rw [opened, hwrite]
    rfl

theorem replay_ok_iff {e : Entry} {merge : HeaderMerge} {t : τ} :
    (e.replay merge t).1 = .ok () ↔
      e.body = [] ∨ ∃ n, (Sink.write e.body (e.opened merge t)).1 = .ok n := by
  by_cases hbody : e.body = []
  · simp [replay_nil hbody, hbody]
  · rw [replay_cons hbody]
    cases (Sink.write e.body (e.opened merge t)).1 with
    | error err => simp [hbody, Except.map]
    | ok n => simp [Except.map]

theorem taken_replay (e : Entry) (merge : HeaderMerge) (t : τ) :
    (e.replay merge (Metered.start t)).2.taken =
      WriteError.taken e.body (Sink.write e.body (e.opened merge t)).1 := by
  by_cases hbody : e.body = []
  · rw [replay_nil hbody, hbody, WriteError.taken_nil]
    rfl
  · rw [replay_cons hbody]
    rfl

end Entry

/-! ## Both -/

/-- What becomes of a chunk does not depend on the headers or on the status. -/
structure Sink.Impartial (τ : Type) [Sink τ] : Prop where
  setHeaders : ∀ (h : Headers) (chunk : Bytes) (t : τ),
    (Sink.write chunk (Sink.setHeaders h t)).1 = (Sink.write chunk t).1
  writeStatus : ∀ (status : Status) (chunk : Bytes) (t : τ),
    (Sink.write chunk (Sink.writeStatus status t)).1 = (Sink.write chunk t).1
  /-- No more is taken than there is. -/
  bounded : ∀ {chunk : Bytes} {t : τ} {n : Nat},
    (Sink.write chunk t).1 = .ok n → n ≤ chunk.length

theorem Sink.Impartial.write_opened (h : Sink.Impartial τ) (status : Status)
    (f : Headers → Headers) (chunk : Bytes) (t : τ) :
    (Sink.write chunk (Sink.writeStatus status (Sink.modifyHeaders f t))).1 =
      (Sink.write chunk t).1 :=
  (h.writeStatus _ _ _).trans (h.setHeaders _ _ _)

theorem Scripted.impartial : Sink.Impartial Scripted where
  setHeaders h chunk s := by
    obtain ⟨buffer, plan⟩ := s
    rcases plan with _ | ⟨_ | n, plan⟩ <;> rfl
  writeStatus status chunk s := by
    obtain ⟨buffer, plan⟩ := s
    rcases plan with _ | ⟨_ | n, plan⟩ <;> rfl
  bounded {chunk s n} h := by
    obtain ⟨buffer, plan⟩ := s
    rcases plan with _ | ⟨_ | m, plan⟩
    · cases h; exact Nat.le_refl _
    · cases h
    · cases h; exact Nat.min_le_right _ _

namespace Entry

/-- **A replay that reports no error has delivered the body, if it is that of a response.** The
replay of an entry reports an error just when the sink refuses the body; a sink that takes only a
beginning of it passes for one that takes all. So on sinks that look at the body alone, the
response is replayed without an error just when the entry of the same body is and nothing of it is
missing. -/
theorem delivered_of_replay {r : Response} {e : Entry} (hbody : e.body = r.body)
    (merge : HeaderMerge) (t : τ) :
    ((r.replay t).1 = .ok () → (r.replay (Metered.start t)).2.taken = r.body) ∧
      ((e.replay merge t).1 = .ok () ↔
        e.body = [] ∨ ∃ n, (Sink.write e.body (e.opened merge t)).1 = .ok n) ∧
      (e.replay merge (Metered.start t)).2.taken =
        WriteError.taken e.body (Sink.write e.body (e.opened merge t)).1 ∧
      (Sink.Impartial τ → ((r.replay t).1 = .ok () ↔
        (e.replay merge t).1 = .ok () ∧ (e.replay merge (Metered.start t)).2.taken = e.body)) := by
  refine ⟨?response, replay_ok_iff, taken_replay e merge t, ?both⟩
  case response =>
    intro hok
    rw [Response.taken_replay]
    rcases Response.replay_ok_iff.mp hok with hempty | hwrite
    · rw [hempty, WriteError.taken_nil]
    · rw [hwrite, WriteError.taken, List.take_length]
  case both =>
    intro himpartial
    rw [taken_replay, replay_ok_iff, Response.replay_ok_iff, opened, Response.opened,
      himpartial.write_opened, himpartial.write_opened, hbody]
    constructor
    · rintro (hempty | hwrite)
      · exact ⟨.inl hempty, by rw [hempty, WriteError.taken_nil]⟩
      · exact ⟨.inr ⟨_, hwrite⟩, by rw [hwrite, WriteError.taken, List.take_length]⟩
    · rintro ⟨hempty | ⟨n, hwrite⟩, htaken⟩
      · exact .inl hempty
      · have hle := himpartial.bounded hwrite
        have hlength := congrArg List.length htaken
        rw [hwrite, WriteError.taken, List.length_take] at hlength
        obtain rfl : n = r.body.length := by omega
        exact .inr hwrite

def pairResponse : Response := .ofParts .ok .empty [1, 2]

def pairEntry : Entry := .make .empty [1, 2] .ok (.ofSeconds 60) 0

/-- The replay of an entry does not notice that one of two octets is missing, in neither mode; that
of a response does. -/
theorem truncated_by_short_write :
    ((pairEntry.replay .keep (Scripted.empty [some 1])).1 = .ok () ∧
      (pairEntry.replay .keep (Metered.start (Scripted.empty [some 1]))).2.taken = [1]) ∧
    ((pairEntry.replay .replace (Scripted.empty [some 1])).1 = .ok () ∧
      (pairEntry.replay .replace (Metered.start (Scripted.empty [some 1]))).2.taken = [1]) ∧
    pairEntry.body = [1, 2] ∧ pairResponse.body = pairEntry.body ∧
    (pairResponse.replay (Scripted.empty [some 1])).1 = .error .shortReplay :=
  ⟨⟨rfl, rfl⟩, ⟨rfl, rfl⟩, rfl, rfl, rfl⟩

/-- The two replays into a sink that takes one octet and then all. -/
theorem delivered_of_short_write :
    pairEntry.body = pairResponse.body ∧ Sink.Impartial Scripted ∧
      ((pairResponse.replay (Scripted.empty [some 1])).1 = .ok () ↔
        (pairEntry.replay .replace (Scripted.empty [some 1])).1 = .ok () ∧
          (pairEntry.replay .replace (Metered.start (Scripted.empty [some 1]))).2.taken =
            pairEntry.body) := by
  have hbody : pairEntry.body = pairResponse.body := rfl
  obtain ⟨-, -, -, hboth⟩ := delivered_of_replay hbody .replace (Scripted.empty [some 1])
  exact ⟨hbody, Scripted.impartial, hboth Scripted.impartial⟩

end Entry
end HttpCache
