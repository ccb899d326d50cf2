import HttpCache.Proofs.Server.Framing

/-!
# HttpCache.Proofs.Server.Progress

The loop of a connection, one round after the other, and why it is always left.

* `Feed` — what is received and not used yet, with the reads to come.
* `round` — what one round of the loop comes to; `Loop` — its rounds until it is left.
* `Advances`, `advances_round` — a round takes a read, or cuts a request off what is received, or
  leaves the loop.
* `exists_loop` — so it is left; `Loop.bounds` — after how many rounds and requests at most.
* `sentFrom`, `exchange_round` — an exchange goes through one round after the other.
* `exchange_of_loop` — so it is the answers to the requests of the rounds.
-/

namespace HttpCache
namespace Connection

structure Feed where
  /-- What is received and not used yet. -/
  received : Bytes
  /-- The reads to come. -/
  reads : List Bytes
  deriving DecidableEq, Repr

namespace Feed

/-- One more read. At the end of the stream there is none. -/
def more? (f : Feed) : Option Feed :=
  match f.reads with
  | [] | [] :: _ => none
  | (b :: chunk) :: reads => some ⟨f.received ++ b :: chunk, reads⟩

/-- A read is waited for if nothing is received. -/
def filled? (f : Feed) : Option Feed := if f.received.isEmpty then f.more? else some f

/-- What the loop has left to use: the reads to come, and the octets in them and before them. -/
def size (f : Feed) : Nat := f.reads.length + (f.received ++ f.reads.flatten).length

/-- The feed after some of its reads, none of them empty. -/
structure Takes (f : Feed) (taken : List Bytes) (g : Feed) : Prop where
  reads : f.reads = taken ++ g.reads
  full : [] ∉ taken
  received : g.received = f.received ++ taken.flatten

end Feed

/-- What a round of the loop comes to, with what is left of the feed. -/
inductive Round where
  /-- The stream has ended. -/
  | closed (left : Feed)
  | refused (response : Response) (left : Feed)
  /-- A read has been added to what is received. -/
  | gathered (left : Feed)
  /-- A request has been cut off and is handled. -/
  | handled (request : Request) (left : Feed)
  deriving DecidableEq, Repr

namespace Round

def left : Round → Feed
  | closed left | refused _ left | gathered left | handled _ left => left

/-- The feed of the next round, if the loop goes on. -/
def next? : Round → Option Feed
  | closed _ | refused _ _ => none
  | gathered left => some left
  | handled request left => if request.keepAlive then some left else none

def requests : Round → List Request
  | handled request _ => [request]
  | _ => []

def ending : Round → Ending
  | refused response _ => .refused response
  | _ => .closed

end Round

/-- One round of the loop. -/
def round (f : Feed) : Round :=
  match f.filled? with
  | none => .closed f
  | some f =>
    match decide f.received with
    | .readMore =>
      match f.more? with
      | none => .closed f
      | some more => .gathered more
    | .refuse response => .refused response f
    | .dispatch request rest => .handled request ⟨rest, f.reads⟩

/-- The rounds after which the loop goes on, and the one with which it is left. -/
inductive Loop : Feed → List Round → Round → Prop where
  | leave {f : Feed} (h : (round f).next? = none) : Loop f [] (round f)
  | again {f g : Feed} {rounds : List Round} {last : Round} (h : (round f).next? = some g)
      (hrest : Loop g rounds last) : Loop f (round f :: rounds) last

/-- The requests of some rounds, in order. -/
def requestsOf (rounds : List Round) : List Request := rounds.flatMap Round.requests

/-! ## One round -/

/-- A round takes at least one read, or cuts a request with a head of at least one octet off what
is received, or leaves the loop. -/
inductive Advances (f : Feed) : Round → Prop where
  | gathers {taken : List Bytes} {g : Feed} (h : f.Takes taken g) (hne : taken ≠ []) :
      Advances f (.gathered g)
  | handles {taken : List Bytes} {g : Feed} {head rest : Bytes} {request : Request}
      (h : f.Takes taken g) (hslice : Slice g.received head request rest) :
      Advances f (.handled request ⟨rest, g.reads⟩)
  | closes {taken : List Bytes} {g : Feed} (h : f.Takes taken g) : Advances f (.closed g)
  | refuses {taken : List Bytes} {g : Feed} (h : f.Takes taken g) (response : Response) :
      Advances f (.refused response g)

section Rounds

variable {f g : Feed} {taken : List Bytes}

namespace Feed

theorem Takes.none (f : Feed) : f.Takes [] f where
  reads := rfl
  full := List.not_mem_nil
  received := by simp

theorem Takes.trans {more : List Bytes} {f' : Feed} (h : f.Takes taken g) (h' : g.Takes more f') :
    f.Takes (taken ++ more) f' where
  reads := by rw [h.reads, h'.reads, List.append_assoc]
  full := by
    rw [List.mem_append]
    rintro (hmem | hmem)
    · exact h.full hmem
    · exact h'.full hmem
  received := by rw [h'.received, h.received, List.flatten_append, List.append_assoc]

theorem Takes.length (h : f.Takes taken g) :
    g.received.length = f.received.length + taken.flatten.length := by
  rw [h.received, List.length_append]

theorem more?_eq_some (h : f.more? = some g) :
    ∃ read, read ≠ [] ∧ f.reads = read :: g.reads ∧ g.received = f.received ++ read := by
  unfold more? at h
  split at h
  · cases h
  · cases h
  · rename_i b chunk reads hreads
    cases h
    exact ⟨b :: chunk, by simp, hreads, rfl⟩

theorem takes_of_more? (h : f.more? = some g) : ∃ taken, taken ≠ [] ∧ f.Takes taken g := by
  obtain ⟨read, hne, hreads, hreceived⟩ := more?_eq_some h
  refine ⟨[read], by simp, hreads, ?_, ?_⟩
  · simpa using hne.symm
  · simpa using hreceived

theorem takes_of_filled? (h : f.filled? = some g) : ∃ taken, f.Takes taken g := by
  unfold filled? at h
  split at h
  · obtain ⟨taken, -, htakes⟩ := takes_of_more? h
    exact ⟨taken, htakes⟩
  · cases h
    exact ⟨[], .none f⟩

end Feed

theorem advances_round (f : Feed) : Advances f (round f) := by
  unfold round
  split
  · exact .closes (.none f)
  · rename_i g hfilled
    obtain ⟨taken, htakes⟩ := Feed.takes_of_filled? hfilled
    split
    · split
      · exact .closes htakes
      · rename_i more hmore
        obtain ⟨read, hne, hread⟩ := Feed.takes_of_more? hmore
        exact .gathers (htakes.trans hread) (by simp [hne])
    · exact .refuses htakes _
    · rename_i request rest hd
      obtain ⟨head, hslice⟩ := slice_of_dispatch hd
      exact .handles htakes hslice

theorem Slice.length_lt {s head rest : Bytes} {request : Request} (h : Slice s head request rest) :
    rest.length < s.length := by
  have hhead := List.length_pos_iff.mpr h.nonempty
  rw [h.octets, List.length_append, List.length_append]
  omega

/-- Whatever a round comes to, it takes reads and uses at most what is received then. -/
theorem Advances.bounds {r : Round} (h : Advances f r) :
    ∃ taken, f.reads = taken ++ r.left.reads ∧
      r.requests.length + r.left.received.length ≤ f.received.length + taken.flatten.length ∧
      (r.next? = none ∨ 0 < taken.length + r.requests.length) := by
  cases h with
  | @gathers taken g h hne =>
    have hlength := h.length
    have hpos := List.length_pos_iff.mpr hne
    refine ⟨taken, h.reads, ?_, .inr ?_⟩
    · simp only [Round.requests, Round.left, List.length_nil]
      omega
    · omega
  | @handles taken g head rest request h hslice =>
    have hlength := h.length
    have hlt := hslice.length_lt
    refine ⟨taken, h.reads, ?_, .inr ?_⟩
    · simp only [Round.requests, Round.left, List.length_singleton]
      omega
    · simp only [Round.requests, List.length_singleton]
      omega
  | @closes taken g h =>
    have hlength := h.length
    refine ⟨taken, h.reads, ?_, .inl rfl⟩
    simp only [Round.requests, Round.left, List.length_nil]
    omega
  | @refuses taken g h response =>
    have hlength := h.length
    refine ⟨taken, h.reads, ?_, .inl rfl⟩
    simp only [Round.requests, Round.left, List.length_nil]
    omega

theorem left_of_next? {r : Round} (h : r.next? = some g) : r.left = g := by
  cases r with
  | closed left => cases h
  | refused response left => cases h
  | gathered left => cases h; rfl
  | handled request left =>
    simp only [Round.next?] at h
    split at h
    · cases h; rfl
    · cases h

theorem size_lt_of_next? (h : (round f).next? = some g) : g.size < f.size := by
  obtain ⟨taken, hreads, hused, hnext⟩ := (advances_round f).bounds
  rw [left_of_next? h] at hreads hused
  rw [h] at hnext
  simp only [Feed.size, hreads, List.flatten_append, List.length_append]
  rcases hnext with hnext | hnext
  · cases hnext
  · omega

/-! ## All rounds -/

/-- The loop is left, since each round that does not leave it uses up some of the feed. -/
theorem exists_loop (f : Feed) : ∃ rounds last, Loop f rounds last := by
  induction hn : f.size using Nat.strongRecOn generalizing f with
  | _ n ih =>
    cases h : (round f).next? with
    | none => exact ⟨[], round f, .leave h⟩
    | some g =>
      have hlt := size_lt_of_next? h
      obtain ⟨rounds, last, hrest⟩ := ih g.size (by omega) g rfl
      exact ⟨round f :: rounds, last, .again h hrest⟩

/-- Each round that does not leave the loop takes a read or handles a request, and each request has
an octet of its own among those received. -/
theorem Loop.bounds {rounds : List Round} {last : Round} (h : Loop f rounds last) :
    ∃ taken, f.reads = taken ++ last.left.reads ∧
      rounds.length ≤ taken.length + (requestsOf (rounds ++ [last])).length ∧
      (requestsOf (rounds ++ [last])).length + last.left.received.length ≤
        f.received.length + taken.flatten.length := by
  induction h with
  | @leave f h =>
    obtain ⟨taken, hreads, hused, -⟩ := (advances_round f).bounds
    refine ⟨taken, hreads, Nat.zero_le _, ?_⟩
    simpa [requestsOf] using hused
  | @again f g rounds last h _ ih =>
    obtain ⟨taken, hreads, hused, hnext⟩ := (advances_round f).bounds
    obtain ⟨more, hmore, hrounds, hrest⟩ := ih
    rw [left_of_next? h] at hreads hused
    rw [h] at hnext
    have hpos := hnext.resolve_left (by simp)
    refine ⟨taken ++ more, by rw [hreads, hmore, List.append_assoc], ?_, ?_⟩
    · simp only [requestsOf, List.cons_append, List.flatMap_cons, List.length_append,
        List.length_cons] at hrounds ⊢
      omega
    · simp only [requestsOf, List.cons_append, List.flatMap_cons, List.length_append,
        List.flatten_append] at hrest ⊢
      omega

end Rounds

/-! ## The exchange as a loop -/

/-- What is sent from a round on: an answer, if there is one, and what is sent from the next round
on, if there is one. -/
def sentFrom {σ : Type} (p : Pipeline σ) : Round → Act σ Bytes
  | .closed _ => pure []
  | .refused response _ => pure response.wire
  | .gathered left => exchange p left.reads left.received
  | .handled request left =>
    p.handle request >>= fun response =>
      if request.keepAlive then
        exchange p left.reads left.received >>= fun more =>
          pure (replyTo request response ++ more)
      else pure (replyTo request response)

section Exchange

variable {σ : Type} (p : Pipeline σ) {f g : Feed}

theorem exchange_more (h : f.more? = some g) (hd : decide f.received = .readMore) :
    exchange p f.reads f.received = exchange p g.reads g.received := by
  obtain ⟨read, hne, hreads, hreceived⟩ := Feed.more?_eq_some h
  rw [hreads, hreceived]
  exact exchange_cons p hne hd

theorem exchange_ended (h : f.more? = none) (hd : decide f.received = .readMore) :
    exchange p f.reads f.received = pure [] := by
  obtain ⟨received, reads⟩ := f
  cases reads with
  | nil => exact exchange_readMore hd
  | cons read reads =>
    cases read with
    | cons b chunk => cases h
    | nil =>
      rw [exchange.eq_def]
      split
      · rfl
      · split
        · rfl
        · rename_i hd'; rw [hd'] at hd; cases hd
        · rename_i hd'; rw [hd'] at hd; cases hd

/-- Nothing received is the beginning of a request, so a read is added to it. -/
theorem decide_of_isEmpty {s : Bytes} (h : s.isEmpty = true) : decide s = .readMore := by
  rw [List.isEmpty_iff.mp h]
  exact decide_nil

theorem exchange_filled (h : f.filled? = some g) :
    exchange p f.reads f.received = exchange p g.reads g.received := by
  unfold Feed.filled? at h
  split at h
  · rename_i hnil
    exact exchange_more p h (decide_of_isEmpty hnil)
  · cases h
    rfl

theorem exchange_unfilled (h : f.filled? = none) :
    exchange p f.reads f.received = pure [] := by
  unfold Feed.filled? at h
  split at h
  · rename_i hnil
    exact exchange_ended p h (decide_of_isEmpty hnil)
  · cases h

theorem exchange_round (f : Feed) : exchange p f.reads f.received = sentFrom p (round f) := by
  cases hfilled : f.filled? with
  | none =>
    simp only [sentFrom, round, hfilled]
    exact exchange_unfilled p hfilled
  | some g =>
    rw [exchange_filled p hfilled]
    cases hd : decide g.received with
    | readMore =>
      cases hmore : g.more? with
      | none =>
        simp only [sentFrom, round, hfilled, hd, hmore]
        exact exchange_ended p hmore hd
      | some more =>
        simp only [sentFrom, round, hfilled, hd, hmore]
        exact exchange_more p hmore hd
    | refuse response =>
      simp only [sentFrom, round, hfilled, hd]
      exact exchange_refuse g.reads hd
    | dispatch request rest =>
      simp only [sentFrom, round, hfilled, hd]
      exact exchange_dispatch g.reads hd

/-- By induction on the rounds. -/
theorem exchange_of_loop {rounds : List Round} {last : Round} (h : Loop f rounds last) :
    exchange p f.reads f.received =
      answerAll p (requestsOf (rounds ++ [last])) last.ending := by
  induction h with
  | @leave f h =>
    rw [exchange_round]
    cases hr : round f with
    | closed left => rfl
    | refused response left => rfl
    | gathered left =>
      rw [hr] at h
      cases h
    | handled request left =>
      rw [hr] at h
      have hkeep : request.keepAlive = false := by
        simpa [Round.next?] using h
      simp [sentFrom, hkeep, requestsOf, Round.requests, Round.ending, answerAll, Ending.sent]
  | @again f g rounds last h _ ih =>
    have hleft := left_of_next? h
    rw [exchange_round]
    cases hr : round f with
    | closed left =>
      rw [hr] at h
      cases h
    | refused response left =>
      rw [hr] at h
      cases h
    | gathered left =>
      rw [hr] at hleft
      obtain rfl : left = g := hleft
      exact ih
    | handled request left =>
      rw [hr] at h hleft
      obtain rfl : left = g := hleft
      have hkeep : request.keepAlive = true := by
        simpa [Round.next?] using h
      have hrequests : requestsOf (.handled request left :: rounds ++ [last]) =
          request :: requestsOf (rounds ++ [last]) := rfl
      simp only [sentFrom, hkeep, if_true, hrequests, answerAll, ih]

end Exchange

/-- **The loop of a connection is always left.** An exchange goes on as its next round says, and
each round takes at least one more read, or cuts a request with a head of at least one octet off
what is received, or leaves the loop. So over whatever reads, up to the first empty one, it is left
after finitely many rounds: no more than one for each read that it takes and one for each request,
and a last one. Whatever the pipeline, the requests of these rounds are handled, nothing else is,
and they are no more than the octets received. -/
theorem exchange_leaves (reads : List Bytes) :
    (∀ f : Feed, Advances f (round f) ∧
      ∀ {σ : Type} (p : Pipeline σ), exchange p f.reads f.received = sentFrom p (round f)) ∧
      ∃ rounds last taken, Loop ⟨[], reads⟩ rounds last ∧ reads = taken ++ last.left.reads ∧
        (rounds ++ [last]).length ≤
          taken.length + (requestsOf (rounds ++ [last])).length + 1 ∧
        (requestsOf (rounds ++ [last])).length ≤ taken.flatten.length ∧
        ∀ {σ : Type} (p : Pipeline σ),
          exchange p reads [] = answerAll p (requestsOf (rounds ++ [last])) last.ending ∧
          ∀ s past, (exchange p.recorded reads [] ⟨s, past⟩).state.requests =
            past ++ requestsOf (rounds ++ [last]) := by
  have hround : ∀ f : Feed, Advances f (round f) ∧
      ∀ {σ : Type} (p : Pipeline σ), exchange p f.reads f.received = sentFrom p (round f) := by
    intro f
    refine ⟨advances_round f, ?_⟩
    intro σ p
    exact exchange_round p f
  refine ⟨hround, ?_⟩
  obtain ⟨rounds, last, hloop⟩ := exists_loop ⟨[], reads⟩
  obtain ⟨taken, hreads, hrounds, hrequests⟩ := hloop.bounds
  have hall : ∀ {σ : Type} (p : Pipeline σ),
      exchange p reads [] = answerAll p (requestsOf (rounds ++ [last])) last.ending := by
    intro σ p
    exact exchange_of_loop p hloop
  refine ⟨rounds, last, taken, hloop, hreads, ?_, ?_, ?_⟩
  · rw [List.length_append, List.length_singleton]
    omega
  · simp only [List.length_nil] at hrequests
    omega
  · intro σ p
    refine ⟨hall p, ?_⟩
    intro s past
    rw [hall p.recorded, answerAll_recorded]

end Connection
end HttpCache
