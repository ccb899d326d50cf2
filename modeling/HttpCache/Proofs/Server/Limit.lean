import HttpCache.Proofs.Server.Framing

/-!
# HttpCache.Proofs.Server.Limit

The limit on the size of a request is a limit on what is held when the request is complete, be it
octets of the request or octets that follow it.

* `Message`: a request that is within the limit by itself, with the octets of its head.
* `gather`: how much is held when a request is complete, and the reads that are left then.
* `admitted`: the number of requests that are complete with no more held than the limit. Those
  that leave room for one more read all are (`admittedOf_of_short`).
* `Turn`: what becomes of one request; `exchange_of_messages`: the admitted requests are handled,
  and the next one is refused as too large.
-/

namespace HttpCache
namespace Connection

/-- A request within the limit: the octets of its head, and what is parsed from them, with a body
of the declared length. -/
structure Message where
  head : Bytes
  request : Request
  parsed : Request.parse head = .ok ({ request with body := [] }, head.length)
  length : request.body.length = request.contentLength?.getD 0
  within : (head ++ request.body).length ≤ maxRequestSize

namespace Message

def octets (m : Message) : Bytes := m.head ++ m.request.body

def size (m : Message) : Nat := m.octets.length

theorem slice (m : Message) (rest : Bytes) :
    Slice (m.octets ++ rest) m.head m.request rest where
  octets := rfl
  nonempty := List.ne_nil_of_length_pos (Request.parse_offset m.parsed).1
  parsed := by
    rw [octets, List.append_assoc, Request.parse_append _ (by rw [m.parsed]; simp), m.parsed]
    rfl
  length := m.length

/-- A request that stands at the front of a stream, as long as it is within the limit. -/
def ofSlice {s head rest : Bytes} {request : Request} (h : Slice s head request rest)
    (hwithin : (head ++ request.body).length ≤ maxRequestSize) : Message where
  head := head
  request := request
  parsed := by
    obtain ⟨front, -, hs, -, hall⟩ := Request.parse_replace h.parsed
    rw [h.octets, List.append_assoc] at hs
    have hfront : head = front := List.append_cancel_right hs
    have hnone := hall []
    rwa [List.append_nil, ← hfront] at hnone
  length := h.length
  within := hwithin

variable {received more rest : Bytes}

/-- As long as a request is not complete, what is received may be the beginning of one. -/
theorem unfinished (m : Message) (h : received ++ more = m.octets ++ rest)
    (hlt : received.length < m.size) : Unfinished received := by
  by_cases hopen : Request.parse received = .error .incomplete
  · exact .inl hopen
  · -- the head is complete, and the same as with all octets at hand
    have hall := Request.parse_append more hopen
    rw [h, (m.slice rest).parsed] at hall
    cases hr : Request.parse received with
    | error e =>
      rw [hr] at hall
      cases hall
    | ok found =>
      rw [hr] at hall
      obtain ⟨hrequest, hoffset⟩ := Prod.mk.inj (Except.ok.inj hall)
      have hlength : found.1.contentLength? = m.request.contentLength? :=
        (congrArg Request.contentLength? hrequest).symm
      have hneeded : needed found.1 found.2 = m.size := by
        rw [needed, hlength, ← m.length, ← hoffset, size, octets, List.length_append]
      exact .inr ⟨found.1, found.2, hr, hneeded ▸ m.within, hneeded ▸ hlt⟩

theorem decide_of_lt (m : Message) (h : received ++ more = m.octets ++ rest)
    (hlt : received.length < m.size) : decide received = .readMore :=
  decide_eq_of_front (Nat.le_trans (Nat.le_of_lt hlt) m.within) (.unfinished (m.unfinished h hlt))

theorem decide_octets_append (m : Message) (kept : Bytes) :
    decide (m.octets ++ kept) =
      if maxRequestSize < m.size + kept.length then .refuse tooLarge
      else .dispatch m.request kept := by
  rw [size, ← List.length_append]
  split
  · rename_i hlarge
    rw [decide, if_pos hlarge]
  · rename_i hsmall
    exact decide_eq_of_front (Nat.not_lt.mp hsmall) (.slice (m.slice kept))

end Message

/-- How much is held when a request of a size is complete, and the lengths of the reads that are
still to come then. -/
def gather (size : Nat) : Nat → List Nat → Nat × List Nat
  | held, [] => (held, [])
  | held, read :: reads =>
    if size ≤ held then (held, read :: reads) else gather size (held + read) reads

/-- The number of requests, from the first one on, that are complete when no more is held than the
limit. Each takes its size from what is held. -/
def admitted : Nat → List Nat → List Nat → Nat
  | _, _, [] => 0
  | held, reads, size :: sizes =>
    if maxRequestSize < (gather size held reads).1 then 0
    else admitted ((gather size held reads).1 - size) (gather size held reads).2 sizes + 1

/-- The number of requests that are admitted when their octets come in some reads. -/
def admittedOf (reads : List Bytes) (messages : List Message) : Nat :=
  admitted 0 (reads.map (·.length)) (messages.map (·.size))

section Exchange

variable {σ : Type} {received rest : Bytes} {reads : List Bytes}

/-- Reads are taken until the request is complete. By induction on the reads. -/
theorem exchange_gather (p : Pipeline σ) (m : Message) (hreads : [] ∉ reads)
    (h : received ++ reads.flatten = m.octets ++ rest) :
    ∃ kept left, exchange p reads received = exchange p left (m.octets ++ kept) ∧
      [] ∉ left ∧ kept ++ left.flatten = rest ∧
      gather m.size received.length (reads.map (·.length)) =
        (m.size + kept.length, left.map (·.length)) := by
  induction reads generalizing received with
  | nil =>
    rw [List.flatten_nil, List.append_nil] at h
    refine ⟨rest, [], by rw [h], List.not_mem_nil, List.append_nil rest, ?_⟩
    rw [h, List.length_append]
    rfl
  | cons read reads ih =>
    by_cases hlt : received.length < m.size
    · rw [exchange_cons p (List.ne_of_not_mem_cons hreads).symm (m.decide_of_lt h hlt)]
      rw [List.flatten_cons, ← List.append_assoc] at h
      obtain ⟨kept, left, hall⟩ := ih (List.not_mem_of_not_mem_cons hreads) h
      rw [List.length_append] at hall
      refine ⟨kept, left, ?_⟩
      rwa [List.map_cons, gather, if_neg (Nat.not_le.mpr hlt)]
    · -- the request is among what is received, which may hold more
      have hle := Nat.not_lt.mp hlt
      obtain ⟨kept, rfl⟩ : m.octets <+: received :=
        List.prefix_of_prefix_length_le (List.prefix_append _ _) (h ▸ List.prefix_append _ _) hle
      rw [List.append_assoc, List.append_cancel_left_eq] at h
      refine ⟨kept, read :: reads, rfl, hreads, h, ?_⟩
      rw [List.map_cons, gather, if_pos hle, List.length_append]
      rfl

/-- What becomes of a request: it is refused, if more is held than the limit when it is complete,
or handled, and the exchange goes on with what is left. -/
inductive Turn (p : Pipeline σ) (m : Message) (reads : List Bytes) (received rest : Bytes) :
    Prop where
  | refused
      (hcount : ∀ sizes, admitted received.length (reads.map (·.length)) (m.size :: sizes) = 0)
      (hexchange : exchange p reads received = pure tooLarge.wire)
  | handled {kept : Bytes} {left : List Bytes} (hleft : [] ∉ left)
      (hrest : kept ++ left.flatten = rest)
      (hcount : ∀ sizes, admitted received.length (reads.map (·.length)) (m.size :: sizes) =
        admitted kept.length (left.map (·.length)) sizes + 1)
      (hexchange : exchange p reads received = p.handle m.request >>= fun response =>
        if m.request.keepAlive then
          exchange p left kept >>= fun more => pure (replyTo m.request response ++ more)
        else pure (replyTo m.request response))

theorem turn_of_octets (p : Pipeline σ) (m : Message) (hreads : [] ∉ reads)
    (h : received ++ reads.flatten = m.octets ++ rest) : Turn p m reads received rest := by
  obtain ⟨kept, left, hexchange, hleft, hrest, hgather⟩ := exchange_gather p m hreads h
  have hd := m.decide_octets_append kept
  split at hd
  · rename_i hlarge
    refine .refused (fun sizes => ?_) (hexchange.trans (exchange_refuse left hd))
    rw [admitted, hgather, if_pos hlarge]
  · rename_i hsmall
    refine .handled hleft hrest (fun sizes => ?_) (hexchange.trans (exchange_dispatch left hd))
    rw [admitted, hgather, if_neg hsmall, Nat.add_sub_cancel_left]

variable {earlier : List Message} {m : Message}

/-- By induction on the earlier requests. -/
theorem exchange_of_refused (p : Pipeline σ) (hreads : [] ∉ reads)
    (h : received ++ reads.flatten = (earlier ++ [m]).flatMap Message.octets ++ rest)
    (hkeep : ∀ e ∈ earlier, e.request.keepAlive = true) {count : Nat}
    (hcount : admitted received.length (reads.map (·.length)) ((earlier ++ [m]).map (·.size)) =
      count) (hle : count ≤ earlier.length) :
    exchange p reads received =
      answerAll p ((earlier.take count).map (·.request)) (.refused tooLarge) := by
  induction earlier generalizing reads received count with
  | nil =>
    cases turn_of_octets p m hreads (by simpa using h) with
    | refused _ hexchange =>
      rw [hexchange, List.take_nil]
      rfl
    | handled _ _ hturn _ =>
      rw [List.nil_append, List.map_singleton, hturn] at hcount
      exact absurd hle (by simp [← hcount])
  | cons e earlier ih =>
    obtain ⟨hkeep₀, hkeep⟩ := List.forall_mem_cons.mp hkeep
    rw [List.cons_append, List.flatMap_cons, List.append_assoc] at h
    rw [List.cons_append, List.map_cons] at hcount
    cases turn_of_octets p e hreads h with
    | refused hturn hexchange =>
      rw [hexchange, ← hcount, hturn]
      rfl
    | handled hleft hrest hturn hexchange =>
      rw [hturn] at hcount
      subst hcount
      rw [hexchange, List.take_succ_cons, List.map_cons, answerAll,
        ← ih hleft hrest hkeep rfl (Nat.le_of_succ_le_succ hle)]
      simp only [hkeep₀, if_true]

theorem exchange_of_admitted (p : Pipeline σ) (hreads : [] ∉ reads)
    (h : received ++ reads.flatten = (earlier ++ [m]).flatMap Message.octets ++ rest)
    (hkeep : ∀ e ∈ earlier, e.request.keepAlive = true)
    (hcount : admitted received.length (reads.map (·.length)) ((earlier ++ [m]).map (·.size)) =
      earlier.length + 1) :
    ∃ kept left, [] ∉ left ∧ kept ++ left.flatten = rest ∧
      exchange p reads received =
        answerAll p ((earlier ++ [m]).map (·.request)) .closed >>= fun sent =>
          if m.request.keepAlive then
            exchange p left kept >>= fun more => pure (sent ++ more)
          else pure sent := by
  induction earlier generalizing reads received with
  | nil =>
    cases turn_of_octets p m hreads (by simpa using h) with
    | refused hturn _ =>
      rw [List.nil_append, List.map_singleton, hturn] at hcount
      cases hcount
    | handled hleft hrest _ hexchange =>
      refine ⟨_, _, hleft, hrest, ?_⟩
      simp only [hexchange, List.nil_append, List.map_singleton, answerAll, Ending.sent, pure_bind,
        bind_assoc, List.append_nil]
  | cons e earlier ih =>
    obtain ⟨hkeep₀, hkeep⟩ := List.forall_mem_cons.mp hkeep
    rw [List.cons_append, List.flatMap_cons, List.append_assoc] at h
    rw [List.cons_append, List.map_cons] at hcount
    cases turn_of_octets p e hreads h with
    | refused hturn _ =>
      rw [hturn] at hcount
      cases hcount
    | handled hleft hrest hturn hexchange =>
      rw [hturn, List.length_cons] at hcount
      obtain ⟨kept, left, hleft, hrest, hall⟩ := ih hleft hrest hkeep (Nat.succ.inj hcount)
      refine ⟨kept, left, hleft, hrest, ?_⟩
      rw [hexchange]
      simp only [hkeep₀, if_true, hall, List.cons_append, List.map_cons, answerAll, bind_assoc,
        pure_bind]
      cases m.request.keepAlive <;>
        simp only [Bool.false_eq_true, if_false, if_true, bind_assoc, pure_bind, List.append_assoc]

end Exchange

theorem admitted_le (held : Nat) (reads sizes : List Nat) :
    admitted held reads sizes ≤ sizes.length := by
  induction sizes generalizing held reads with
  | nil => exact Nat.le_refl 0
  | cons size sizes ih =>
    rw [admitted]
    split
    · exact Nat.zero_le _
    · exact Nat.succ_le_succ (ih _ _)

/-! ## Reads that are short enough -/

theorem gather_le {size : Nat} {reads : List Nat} {held : Nat} (hheld : held ≤ maxRequestSize)
    (hreads : ∀ read ∈ reads, read + size ≤ maxRequestSize + 1) :
    (gather size held reads).1 ≤ maxRequestSize ∧ (gather size held reads).2 ⊆ reads := by
  induction reads generalizing held with
  | nil => exact ⟨hheld, List.Subset.refl _⟩
  | cons read reads ih =>
    obtain ⟨hread, hreads⟩ := List.forall_mem_cons.mp hreads
    rw [gather]
    split
    · exact ⟨hheld, List.Subset.refl _⟩
    · have hmore : held + read ≤ maxRequestSize := by omega
      obtain ⟨hle, hsub⟩ := ih hmore hreads
      exact ⟨hle, List.subset_cons_of_subset _ hsub⟩

theorem admitted_of_short {reads sizes : List Nat} {held : Nat} (hheld : held ≤ maxRequestSize)
    (h : ∀ read ∈ reads, ∀ size ∈ sizes, read + size ≤ maxRequestSize + 1) :
    admitted held reads sizes = sizes.length := by
  induction sizes generalizing held reads with
  | nil => rfl
  | cons size sizes ih =>
    obtain ⟨hle, hsub⟩ := gather_le hheld fun read hread => h read hread size List.mem_cons_self
    rw [admitted, if_neg (Nat.not_lt.mpr hle), List.length_cons,
      ih (Nat.le_trans (Nat.sub_le _ _) hle) fun read hread size hsize =>
        h read (hsub hread) size (List.mem_cons_of_mem _ hsize)]

/-- Requests that leave room for one more read are all admitted. -/
theorem admittedOf_of_short {reads : List Bytes} {messages : List Message}
    (h : ∀ read ∈ reads, ∀ m ∈ messages, read.length + m.size ≤ maxRequestSize + 1) :
    admittedOf reads messages = messages.length := by
  rw [admittedOf, admitted_of_short (Nat.zero_le _), List.length_map]
  intro read hread size hsize
  obtain ⟨octets, hoctets, rfl⟩ := List.mem_map.mp hread
  obtain ⟨m, hm, rfl⟩ := List.mem_map.mp hsize
  exact h octets hoctets m hm

/-! ## What becomes of the requests -/

/-- **The limit is one on what is held, not on the size of a request.** Of requests that are within
the limit one by one, and keep the connection open up to the last, as many are handled as are
complete with no more held than the limit: if that is all of them, they are handled in order and
the exchange goes on with what follows; if not, the ones before are handled, and the next one is
refused as too large, however small it is. -/
theorem exchange_of_messages {σ : Type} (p : Pipeline σ) {reads : List Bytes}
    {earlier : List Message} {m : Message} {rest : Bytes} (hreads : [] ∉ reads)
    (hoctets : reads.flatten = (earlier ++ [m]).flatMap Message.octets ++ rest)
    (hkeep : ∀ e ∈ earlier, e.request.keepAlive = true) :
    (admittedOf reads (earlier ++ [m]) = earlier.length + 1 →
      ∃ kept left, [] ∉ left ∧ kept ++ left.flatten = rest ∧
        exchange p reads [] =
          answerAll p ((earlier ++ [m]).map (·.request)) .closed >>= fun sent =>
            if m.request.keepAlive then
              exchange p left kept >>= fun more => pure (sent ++ more)
            else pure sent) ∧
    (admittedOf reads (earlier ++ [m]) ≠ earlier.length + 1 →
      exchange p reads [] =
        answerAll p ((earlier.take (admittedOf reads (earlier ++ [m]))).map (·.request))
          (.refused tooLarge)) := by
  have hall : [] ++ reads.flatten = (earlier ++ [m]).flatMap Message.octets ++ rest := hoctets
  refine ⟨exchange_of_admitted p hreads hall hkeep, fun hne => ?_⟩
  have hle := admitted_le 0 (reads.map (·.length)) ((earlier ++ [m]).map (·.size))
  rw [List.length_map, List.length_append, List.length_singleton] at hle
  exact exchange_of_refused p hreads hall hkeep rfl
    (Nat.lt_succ_iff.mp (Nat.lt_of_le_of_ne hle hne))

/-! ## A large request and the beginning of the next one -/

/-- The message of a draft with few enough header lines, whose body has the declared length. -/
def Message.ofDraft (d : Request.Draft) (hfields : d.fields.length ≤ Head.maxFields)
    (hlength : d.body.length = d.request.contentLength?.getD 0)
    (hwithin : (d.head ++ d.body).length ≤ maxRequestSize) : Message :=
  have hslice : Slice (d.head ++ d.body) d.head d.request [] := by
    have hall := slice_of_draft d hfields hlength []
    rwa [List.append_nil] at hall
  .ofSlice hslice hwithin

def smallDraft : Request.Draft where
  emptyLines := 0
  method := "GET"
  target := "/a"
  version := .http11
  fields := []
  body := []

/-- With a body of the declared length, the largest request that is allowed. -/
def largeDraft (body : Bytes) : Request.Draft where
  emptyLines := 0
  method := "POST"
  target := "/b"
  version := .http11
  fields := [("content-length", "8388563")]
  body := body

theorem contentLength?_smallDraft : smallDraft.request.contentLength? = none := by
  rw [Request.contentLength?, Request.Draft.headers_request]
  rfl

theorem contentLength?_largeDraft (body : Bytes) :
    (largeDraft body).request.contentLength? = some 8388563 := by
  have hvalue : (Headers.ofList (largeDraft body).fields).get? "content-length" =
      some "8388563" := by
    simp [Headers.get?, Headers.ofList, largeDraft, Ascii.sameName_refl]
  rw [Request.contentLength?, Request.Draft.headers_request, hvalue]
  decide +kernel

theorem length_head_largeDraft (body : Bytes) : (largeDraft body).head.length = 45 := by
  have hhead : (largeDraft body).head = (largeDraft []).head := rfl
  rw [hhead]
  decide +kernel

def smallGet : Message :=
  .ofDraft smallDraft (by decide) (by rw [contentLength?_smallDraft]; rfl) (by decide +kernel)

/-- The largest request that is allowed. -/
def largeMessage (body : Bytes) (h : body.length = 8388563) : Message :=
  .ofDraft (largeDraft body) (by simp only [largeDraft]; decide)
    (by rw [contentLength?_largeDraft]; exact h)
    (by
      have hbody : (largeDraft body).body.length = 8388563 := h
      rw [List.length_append, length_head_largeDraft, hbody]
      decide)

theorem octets_largeMessage {body : Bytes} (h : body.length = 8388563) :
    (largeMessage body h).octets = (largeDraft body).head ++ body := rfl

theorem size_largeMessage {body : Bytes} (h : body.length = 8388563) :
    (largeMessage body h).size = maxRequestSize := by
  rw [Message.size, octets_largeMessage, List.length_append, length_head_largeDraft, h]
  decide

theorem keepAlive_smallGet : smallGet.request.keepAlive = true := by
  have hheaders : smallGet.request.headers = .ofList [] := smallDraft.headers_request
  rw [Request.keepAlive, hheaders]
  rfl

theorem size_smallGet : smallGet.size = 19 := by decide +kernel

def largePost : Message := largeMessage (List.replicate 8388563 120) List.length_replicate

/-- The small request, the large one, and the small one again, in three reads: the second one ends
after `n` octets of the large body. -/
def threeReads (n : Nat) : List Bytes :=
  [smallGet.octets ++ largePost.head, List.replicate n 120,
    List.replicate (8388563 - n) 120 ++ smallGet.octets]

section ThreeReads

variable {n : Nat}

theorem nil_not_mem_threeReads (hn : n ≠ 0) : [] ∉ threeReads n := by
  have hsmall : smallGet.octets ≠ [] :=
    List.ne_nil_of_length_pos (Nat.lt_of_lt_of_eq (by decide : 0 < 19) size_smallGet.symm)
  simp [threeReads, hsmall, hn]

theorem flatten_threeReads (hn : n ≤ 8388563) :
    (threeReads n).flatten =
      ([smallGet] ++ [largePost]).flatMap Message.octets ++ smallGet.octets := by
  have hbody : (List.replicate 8388563 120 : Bytes) =
      List.replicate n 120 ++ List.replicate (8388563 - n) 120 := by
    rw [List.replicate_append_replicate, Nat.add_sub_of_le hn]
  have hoctets : largePost.octets = largePost.head ++ List.replicate 8388563 120 := rfl
  simp only [threeReads, hoctets, hbody, List.flatten_cons, List.flatten_nil, List.flatMap_append,
    List.flatMap_singleton, List.append_assoc, List.append_nil]

theorem admittedOf_threeReads (n : Nat) :
    admittedOf (threeReads n) ([smallGet] ++ [largePost]) =
      admitted 0 [64, n, 8388563 - n + 19] [19, maxRequestSize] := by
  have hsmall : smallGet.octets.length = 19 := size_smallGet
  have hlarge : largePost.size = maxRequestSize := size_largeMessage _
  have hhead : largePost.head.length = 45 := length_head_largeDraft _
  simp only [admittedOf, threeReads, List.map_cons, List.map_nil, List.cons_append,
    List.nil_append, List.length_append, List.length_replicate, hsmall, hhead, hlarge,
    size_smallGet]

end ThreeReads

/-- The largest request that is allowed is refused if its last four octets come with the next
request. -/
theorem large_refused_beside_next :
    [] ∉ threeReads 8388559 ∧
      (threeReads 8388559).flatten =
        ([smallGet] ++ [largePost]).flatMap Message.octets ++ smallGet.octets ∧
      smallGet.request.keepAlive = true ∧
      exchange (Pipeline.empty : Pipeline Unit) (threeReads 8388559) [] =
        answerAll Pipeline.empty [smallGet.request] (.refused tooLarge) ∧
      (exchange (Pipeline.empty : Pipeline Unit).recorded (threeReads 8388559) []
        ⟨(), []⟩).state.requests = [smallGet.request] := by
  have hreads : [] ∉ threeReads 8388559 := nil_not_mem_threeReads (by decide)
  have hoctets : [] ++ (threeReads 8388559).flatten =
      ([smallGet] ++ [largePost]).flatMap Message.octets ++ smallGet.octets :=
    flatten_threeReads (by decide)
  have hkeep : ∀ e ∈ [smallGet], e.request.keepAlive = true := by simpa using keepAlive_smallGet
  have hcount : admittedOf (threeReads 8388559) ([smallGet] ++ [largePost]) = 1 := by
    rw [admittedOf_threeReads]
    decide
  have hall {σ : Type} (p : Pipeline σ) :
      exchange p (threeReads 8388559) [] = answerAll p [smallGet.request] (.refused tooLarge) :=
    exchange_of_refused p hreads hoctets hkeep hcount (Nat.le_refl 1)
  refine ⟨hreads, hoctets, keepAlive_smallGet, hall _, ?_⟩
  rw [hall, answerAll_recorded]
  rfl

/-- It is handled if they come without. -/
theorem large_handled_before_next :
    ∃ kept left, [] ∉ left ∧ kept ++ left.flatten = smallGet.octets ∧
      exchange (Pipeline.empty : Pipeline Unit) (threeReads 8388563) [] =
        answerAll Pipeline.empty [smallGet.request, largePost.request] .closed >>= fun sent =>
          if largePost.request.keepAlive then
            exchange Pipeline.empty left kept >>= fun more => pure (sent ++ more)
          else pure sent := by
  have hcount : admittedOf (threeReads 8388563) ([smallGet] ++ [largePost]) = 1 + 1 := by
    rw [admittedOf_threeReads]
    decide
  exact (exchange_of_messages Pipeline.empty (nil_not_mem_threeReads (by decide))
    (flatten_threeReads (by decide)) (by simpa using keepAlive_smallGet)).1 hcount

end Connection
end HttpCache
