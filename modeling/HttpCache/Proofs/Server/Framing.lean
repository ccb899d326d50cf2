import HttpCache.Proofs.Message.Rendering
import HttpCache.Proofs.Pipeline
import HttpCache.Server.Connection

/-!
# HttpCache.Proofs.Server.Framing

How a stream of octets is cut into requests, and that the reads it arrives in do not matter.

* `Slice`: a request stands at the front of a stream, its body as long as its head declares.
* `Front`: what stands at the front of a stream, with what is to be done about it; that is what
  is decided (`front_decide`, `decide_eq_of_front`), and further octets do not change it
  (`Front.append`).
* `Frames`: the requests of a stream, one slice after the other, and how the stream ends; there is
  one way to cut it (`frames_total`, `Frames.unique`).
* `exchange_flatten`: an exchange over any reads is the exchange over all the octets at once.
* `exchange_of_reads`: that exchange answers the requests of the stream.
-/

namespace HttpCache
namespace Connection

/-! ## Requests in a stream -/

/-- The octets are those of a head and of the body of the request, and `rest`. The request is what
is parsed from them, up to its body, which has the declared length. -/
structure Slice (s head : Bytes) (request : Request) (rest : Bytes) : Prop where
  octets : s = head ++ request.body ++ rest
  nonempty : head ≠ []
  parsed : Request.parse s = .ok ({ request with body := request.body ++ rest }, head.length)
  length : request.body.length = request.contentLength?.getD 0

/-- The octets are the beginning of a head, or a head and the beginning of a body that is not too
long. -/
def Unfinished (s : Bytes) : Prop :=
  Request.parse s = .error .incomplete ∨
    ∃ request offset, Request.parse s = .ok (request, offset) ∧
      needed request offset ≤ maxRequestSize ∧ s.length < needed request offset

inductive Front (s : Bytes) : Decision → Prop where
  | unfinished (h : Unfinished s) : Front s .readMore
  | malformed {e : RequestError} (h : Request.parse s = .error e) (he : e ≠ .incomplete) :
      Front s (.refuse (badRequest e))
  | oversized {request : Request} {offset : Nat} (h : Request.parse s = .ok (request, offset))
      (hn : maxRequestSize < needed request offset) : Front s (.refuse tooLarge)
  | slice {head rest : Bytes} {request : Request} (h : Slice s head request rest) :
      Front s (.dispatch request rest)

inductive Ending where
  /-- The connection is closed without a further word. -/
  | closed
  /-- The octets after the last request are refused. -/
  | refused (response : Response)
  deriving DecidableEq, Repr

def Ending.sent : Ending → Bytes
  | closed => []
  | refused response => response.wire

/-- The requests of a stream in order, each at the octet where the one before it ends, and the
ending. Nothing follows a request that does not keep the connection open, or a refusal. -/
inductive Frames : Bytes → List Request → Ending → Prop where
  | unfinished {s : Bytes} (h : Front s .readMore) : Frames s [] .closed
  | refused {s : Bytes} {response : Response} (h : Front s (.refuse response)) :
      Frames s [] (.refused response)
  | last {s rest : Bytes} {request : Request} (h : Front s (.dispatch request rest))
      (hk : request.keepAlive = false) : Frames s [request] .closed
  | next {s rest : Bytes} {request : Request} {requests : List Request} {ending : Ending}
      (h : Front s (.dispatch request rest)) (hk : request.keepAlive = true)
      (hrest : Frames rest requests ending) : Frames s (request :: requests) ending

/-- Answers some requests one after the other, and ends. The value is all that is sent. -/
def answerAll {σ : Type} (p : Pipeline σ) (requests : List Request) (ending : Ending) :
    Act σ Bytes :=
  match requests with
  | [] => pure ending.sent
  | request :: requests => do
    let response ← p.handle request
    let more ← answerAll p requests ending
    pure (replyTo request response ++ more)

/-! ## What is decided -/

variable {s rest : Bytes} {request : Request} {decision : Decision}

theorem slice_of_parse {offset : Nat} (h : Request.parse s = .ok (request, offset))
    (hlength : needed request offset ≤ s.length) :
    ∃ head, Slice s head
      { request with body := (s.take (needed request offset)).drop offset }
      (s.drop (needed request offset)) := by
  obtain ⟨head, hne, hs, rfl, -⟩ := Request.parse_replace h
  have hbody : (s.take (needed request head.length)).drop head.length =
      request.body.take (request.contentLength?.getD 0) := by
    rw [hs, needed, List.take_length_add_append, List.drop_left]
  have hrest : s.drop (needed request head.length) =
      request.body.drop (request.contentLength?.getD 0) := by
    rw [hs, needed, List.drop_length_add_append]
  have hall : (s.take (needed request head.length)).drop head.length ++
      s.drop (needed request head.length) = request.body := by
    rw [hbody, hrest, List.take_append_drop]
  refine ⟨head, ?_, hne, ?_, ?_⟩
  · rw [List.append_assoc, hall, ← hs]
  · rw [h, hall]
  · have htotal := congrArg List.length hs
    rw [List.length_append] at htotal
    rw [needed] at hlength
    simp only [hbody, List.length_take]
    exact Nat.min_eq_left (by omega)

/-- A draft stands in front of whatever follows it, if its body has the declared length. -/
theorem slice_of_draft (d : Request.Draft) (hfields : d.fields.length ≤ Head.maxFields)
    (hlength : d.body.length = d.request.contentLength?.getD 0) (rest : Bytes) :
    Slice (d.head ++ d.body ++ rest) d.head d.request rest := by
  have hparsed := (Request.parse_draft { d with body := d.body ++ rest }).trans (if_pos hfields)
  exact
    { octets := rfl
      nonempty := List.ne_nil_of_length_pos (Request.parse_offset hparsed).1
      parsed := by rw [List.append_assoc]; exact hparsed
      length := hlength }

/-- What is decided about octets is what is to be done about them. -/
theorem front_decide (hsize : s.length ≤ maxRequestSize) : Front s (decide s) := by
  rw [decide, if_neg (Nat.not_lt.mpr hsize)]
  split
  · rename_i h
    exact .unfinished (.inl h)
  · rename_i e he h
    exact .malformed h he
  · rename_i request offset h
    dsimp only
    split
    · rename_i hn
      exact .oversized h hn
    · rename_i hn
      split
      · rename_i hlength
        exact .unfinished (.inr ⟨request, offset, h, Nat.not_lt.mp hn, hlength⟩)
      · rename_i hlength
        obtain ⟨head, hslice⟩ := slice_of_parse h (Nat.not_lt.mp hlength)
        exact .slice hslice

theorem slice_of_dispatch (h : decide s = .dispatch request rest) :
    ∃ head, Slice s head request rest := by
  by_cases hsize : s.length ≤ maxRequestSize
  · have hfront := front_decide hsize
    rw [h] at hfront
    cases hfront with
    | slice hslice => exact ⟨_, hslice⟩
  · rw [decide, if_pos (Nat.not_le.mp hsize)] at h
    cases h

theorem decide_eq_of_front (hsize : s.length ≤ maxRequestSize) (h : Front s decision) :
    decide s = decision := by
  rw [decide, if_neg (Nat.not_lt.mpr hsize)]
  cases h with
  | unfinished h =>
    rcases h with h | ⟨request, offset, h, hn, hlength⟩
    · simp only [h]
    · simp only [h, if_neg (Nat.not_lt.mpr hn), if_pos hlength]
  | malformed h he => simp only [h]
  | oversized h hn => simp only [h, if_pos hn]
  | @slice head rest request h =>
    have hneeded : needed { request with body := request.body ++ rest } head.length =
        (head ++ request.body).length := by
      rw [List.length_append, h.length]
      rfl
    have hlength : (head ++ request.body).length ≤ s.length := by
      rw [h.octets]
      exact (List.prefix_append _ _).length_le
    have htake : (s.take (head ++ request.body).length).drop head.length = request.body := by
      rw [h.octets, List.take_left, List.drop_left]
    have hdrop : s.drop (head ++ request.body).length = rest := by
      rw [h.octets, List.drop_left]
    simp only [h.parsed, hneeded, if_neg (Nat.not_lt.mpr (Nat.le_trans hlength hsize)),
      if_neg (Nat.not_lt.mpr hlength), htake, hdrop]

/-- The same decision with further octets behind those that are left. -/
def Decision.andMore (more : Bytes) : Decision → Decision
  | .readMore => .readMore
  | .refuse response => .refuse response
  | .dispatch request rest => .dispatch request (rest ++ more)

theorem Slice.append {head : Bytes} (h : Slice s head request rest) (more : Bytes) :
    Slice (s ++ more) head request (rest ++ more) where
  octets := by rw [← List.append_assoc, ← h.octets]
  nonempty := h.nonempty
  parsed := by
    rw [Request.parse_append more (by rw [h.parsed]; simp), h.parsed]
    simp only [Except.map, List.append_assoc]
  length := h.length

theorem Front.append (h : Front s decision) (more : Bytes) (hd : decision ≠ .readMore) :
    Front (s ++ more) (decision.andMore more) := by
  cases h with
  | unfinished h => exact absurd rfl hd
  | @malformed e h he =>
    refine .malformed ?_ he
    rw [Request.parse_append more (by rw [h]; simpa using he), h]
    rfl
  | @oversized request offset h hn =>
    have hmore : Request.parse (s ++ more) =
        .ok ({ request with body := request.body ++ more }, offset) := by
      rw [Request.parse_append more (by rw [h]; simp), h]
      rfl
    exact .oversized hmore hn
  | slice h => exact .slice (h.append more)

/-- What is decided about the octets received so far stays decided. -/
theorem decide_append {more : Bytes} (hsize : (s ++ more).length ≤ maxRequestSize)
    (hd : decide s ≠ .readMore) : decide (s ++ more) = (decide s).andMore more := by
  have hs : s.length ≤ maxRequestSize := by
    rw [List.length_append] at hsize
    omega
  exact decide_eq_of_front hsize ((front_decide hs).append more hd)

theorem decide_nil : decide [] = .readMore :=
  decide_eq_of_front (Nat.zero_le _) (.unfinished (.inl rfl))

/-! ## The exchange -/

section Exchange

variable {σ : Type} {p : Pipeline σ}

theorem exchange_readMore (h : decide s = .readMore) : exchange p [] s = pure [] := by
  rw [exchange.eq_def]
  split
  · rfl
  · split
    · rfl
    · rename_i hd; rw [hd] at h; cases h
    · rename_i hd; rw [hd] at h; cases h

theorem not_isEmpty_of_decide (h : decide s ≠ .readMore) : ¬s.isEmpty = true := by
  intro hnil
  rw [List.isEmpty_iff.mp hnil] at h
  exact h decide_nil

theorem exchange_refuse {response : Response} (reads : List Bytes)
    (h : decide s = .refuse response) : exchange p reads s = pure response.wire := by
  rw [exchange.eq_def, if_neg (not_isEmpty_of_decide (by simp [h]))]
  split
  · rename_i hd; rw [hd] at h; cases h
  · rename_i hd; rw [hd] at h; cases h; rfl
  · rename_i hd; rw [hd] at h; cases h

theorem exchange_dispatch (reads : List Bytes) (h : decide s = .dispatch request rest) :
    exchange p reads s =
      p.handle request >>= fun response =>
        if request.keepAlive then
          exchange p reads rest >>= fun more => pure (replyTo request response ++ more)
        else pure (replyTo request response) := by
  rw [exchange.eq_def, if_neg (not_isEmpty_of_decide (by simp [h]))]
  split
  · rename_i hd; rw [hd] at h; cases h
  · rename_i hd; rw [hd] at h; cases h
  · rename_i hd; rw [hd] at h; cases h; rfl

theorem exchange_cons (p : Pipeline σ) {read : Bytes} {reads : List Bytes} (hread : read ≠ [])
    (h : decide s = .readMore) :
    exchange p (read :: reads) s = exchange p reads (s ++ read) := by
  obtain ⟨b, chunk, rfl⟩ := List.exists_cons_of_ne_nil hread
  rw [exchange.eq_def]
  split
  · rename_i hnil
    rw [List.isEmpty_iff.mp hnil]
    rfl
  · split
    · rfl
    · rename_i hd; rw [hd] at h; cases h
    · rename_i hd; rw [hd] at h; cases h

/-- However octets are cut into reads, the exchange over them is the one over all of them at once.
The octets received are the beginning of what is still to be answered, so each case either takes
one more read or removes a request, which is the same request with all octets at hand. -/
theorem exchange_flatten (p : Pipeline σ) (reads : List Bytes) (received : Bytes)
    (hreads : [] ∉ reads) (hsize : (received ++ reads.flatten).length ≤ maxRequestSize) :
    exchange p reads received = exchange p [] (received ++ reads.flatten) := by
  fun_induction exchange p reads received with
  | case1 received hnil =>
    rw [List.isEmpty_iff.mp hnil]
    exact (exchange_readMore decide_nil).symm
  | case2 => exact absurd List.mem_cons_self hreads
  | case3 received hnil b chunk reads ih =>
    rw [List.isEmpty_iff.mp hnil] at hsize ⊢
    exact ih (List.not_mem_of_not_mem_cons hreads) hsize
  | case4 received _ hd =>
    rw [List.flatten_nil, List.append_nil, exchange_readMore hd]
  | case5 => exact absurd List.mem_cons_self hreads
  | case6 received _ hd b chunk reads ih =>
    rw [List.flatten_cons, ← List.append_assoc] at hsize ⊢
    exact ih (List.not_mem_of_not_mem_cons hreads) hsize
  | case7 reads received _ response hd =>
    have hall := decide_append hsize (by simp [hd])
    rw [hd] at hall
    rw [exchange_refuse [] hall]
  | case8 reads received _ request rest hd ih =>
    have hall := decide_append hsize (by simp [hd])
    have hrest := length_lt_of_dispatch hd
    rw [hd] at hall
    rw [exchange_dispatch [] hall]
    rw [List.length_append] at hsize ih
    rw [← ih hreads (by omega)]

/-! ## The requests of a stream -/

theorem frames_total (hsize : s.length ≤ maxRequestSize) :
    ∃ requests ending, Frames s requests ending := by
  induction hn : s.length using Nat.strongRecOn generalizing s with
  | _ n ih =>
    have hfront := front_decide hsize
    cases hd : decide s with
    | readMore => exact ⟨[], .closed, .unfinished (hd ▸ hfront)⟩
    | refuse response => exact ⟨[], .refused response, .refused (hd ▸ hfront)⟩
    | dispatch request rest =>
      have hrest := length_lt_of_dispatch hd
      cases hk : request.keepAlive with
      | false => exact ⟨[request], .closed, .last (hd ▸ hfront) hk⟩
      | true =>
        obtain ⟨requests, ending, hframes⟩ := ih rest.length (by omega) (by omega) rfl
        exact ⟨request :: requests, ending, .next (hd ▸ hfront) hk hframes⟩

theorem Front.unique {decision' : Decision} (hsize : s.length ≤ maxRequestSize)
    (h : Front s decision) (h' : Front s decision') : decision = decision' := by
  rw [← decide_eq_of_front hsize h, decide_eq_of_front hsize h']

/-- By induction on the first way to cut the stream. At each front the decision is the same, and
with it what is left. -/
theorem Frames.unique {requests requests' : List Request} {ending ending' : Ending}
    (hsize : s.length ≤ maxRequestSize) (h : Frames s requests ending)
    (h' : Frames s requests' ending') : requests = requests' ∧ ending = ending' := by
  induction h generalizing requests' ending' with
  | unfinished h =>
    cases h' with
    | unfinished => exact ⟨rfl, rfl⟩
    | refused h' => cases h.unique hsize h'
    | last h' => cases h.unique hsize h'
    | next h' => cases h.unique hsize h'
  | refused h =>
    cases h' with
    | unfinished h' => cases h.unique hsize h'
    | refused h' => cases h.unique hsize h'; exact ⟨rfl, rfl⟩
    | last h' => cases h.unique hsize h'
    | next h' => cases h.unique hsize h'
  | last h hk =>
    cases h' with
    | unfinished h' => cases h.unique hsize h'
    | refused h' => cases h.unique hsize h'
    | last h' => cases h.unique hsize h'; exact ⟨rfl, rfl⟩
    | next h' hk' =>
      cases h.unique hsize h'
      rw [hk] at hk'
      cases hk'
  | next h hk hrest ih =>
    cases h' with
    | unfinished h' => cases h.unique hsize h'
    | refused h' => cases h.unique hsize h'
    | last h' hk' =>
      cases h.unique hsize h'
      rw [hk] at hk'
      cases hk'
    | next h' hk' hrest' =>
      have hlt := length_lt_of_dispatch (decide_eq_of_front hsize h)
      cases h.unique hsize h'
      obtain ⟨rfl, rfl⟩ := ih (by omega) hrest'
      exact ⟨rfl, rfl⟩

theorem exchange_of_frames {requests : List Request} {ending : Ending} (p : Pipeline σ)
    (h : Frames s requests ending) (hsize : s.length ≤ maxRequestSize) :
    exchange p [] s = answerAll p requests ending := by
  induction h with
  | unfinished h => exact exchange_readMore (decide_eq_of_front hsize h)
  | refused h => exact exchange_refuse [] (decide_eq_of_front hsize h)
  | last h hk =>
    rw [exchange_dispatch [] (decide_eq_of_front hsize h)]
    simp only [hk, Bool.false_eq_true, if_false, answerAll, Ending.sent, pure_bind,
      List.append_nil]
  | next h hk _ ih =>
    have hd := decide_eq_of_front hsize h
    have hrest := length_lt_of_dispatch hd
    rw [exchange_dispatch [] hd]
    simp only [hk, if_true, ih (by omega), answerAll]

theorem answerAll_recorded (p : Pipeline σ) (requests : List Request) (ending : Ending) (s : σ)
    (past : List Request) :
    answerAll p.recorded requests ending ⟨s, past⟩ =
      ⟨(answerAll p requests ending s).value,
        ⟨(answerAll p requests ending s).state, past ++ requests⟩,
        (answerAll p requests ending s).events⟩ := by
  induction requests generalizing s past with
  | nil => simp [answerAll]
  | cons request requests ih =>
    simp only [answerAll, Act.bind_apply, Act.pure_apply, Pipeline.handle_recorded, ih,
      List.append_assoc, List.cons_append, List.nil_append]

end Exchange

/-- **The reads of a stream do not matter.** A stream of acceptable size has its requests, each
cut off where the one before it ends, and its ending; whatever the pipeline, and however the
stream is cut into reads, these requests are handled in order, nothing else is, and the octets
sent are the replies to them and the ending. Whenever a request is cut off the octets received,
these are its head, its body of the declared length, and the octets that are kept. -/
theorem exchange_of_reads (reads : List Bytes) (hreads : [] ∉ reads)
    (hsize : reads.flatten.length ≤ maxRequestSize) :
    (∃ requests ending, Frames reads.flatten requests ending ∧
      ∀ {σ : Type} (p : Pipeline σ),
        exchange p reads [] = answerAll p requests ending ∧
        exchange p [reads.flatten] [] = answerAll p requests ending ∧
        ∀ s past, (exchange p.recorded reads [] ⟨s, past⟩).state.requests = past ++ requests) ∧
    ∀ received request rest, decide received = .dispatch request rest →
      ∃ head, Slice received head request rest := by
  constructor
  · obtain ⟨requests, ending, hframes⟩ := frames_total hsize
    have hall : ∀ {σ : Type} (p : Pipeline σ),
        exchange p reads [] = answerAll p requests ending := by
      intro σ p
      rw [exchange_flatten p reads [] hreads hsize]
      exact exchange_of_frames p hframes hsize
    refine ⟨requests, ending, hframes, fun p => ⟨hall p, ?_, fun s past => ?_⟩⟩
    · by_cases hnil : reads.flatten = []
      · rw [hnil] at hframes ⊢
        rw [← exchange_of_frames p hframes (Nat.zero_le _), exchange_readMore decide_nil,
          exchange.eq_def]
        rfl
      · have hone : [reads.flatten].flatten = reads.flatten := by simp
        rw [exchange_flatten p [reads.flatten] [] (by simpa using Ne.symm hnil) (by rwa [hone]),
          hone]
        exact exchange_of_frames p hframes hsize
    · rw [hall p.recorded, answerAll_recorded]
  · intro received request rest hd
    exact slice_of_dispatch hd

theorem isToken_post : Request.IsToken "POST" := by decide +kernel

theorem isTarget_a : Request.IsTarget "/a" := by decide +kernel

def pingDraft : Request.Draft where
  emptyLines := 0
  method := "POST"
  target := "/a"
  version := .http11
  fields := [("Content-Length", "4")]
  body := Text.utf8 "ping"
  isToken_method := isToken_post
  isTarget_target := isTarget_a

def pingRequest : Request :=
  { Request.ofTarget .post "/a" with
    headers := .ofList [("Content-Length", "4")], body := Text.utf8 "ping" }

theorem request_pingDraft : pingDraft.request = pingRequest := by
  have hparts : pingDraft.request = { Request.ofTarget .post "/a" with
      headers := pingDraft.request.headers, body := Text.utf8 "ping" } := rfl
  rw [hparts, pingDraft.headers_request]
  rfl

theorem contentLength?_pingRequest : pingRequest.contentLength? = some 4 := by
  have hname : Ascii.sameName "Content-Length" "content-length" = true := by
    rw [Ascii.sameName_eq]
    decide +kernel
  have hvalue : pingRequest.headers.get? "content-length" = some "4" := by
    simp [pingRequest, Headers.get?, Headers.ofList, hname]
  rw [Request.contentLength?, hvalue]
  decide +kernel

/-- A request in three reads, cut inside its head and its body, with the beginning of another. -/
def pingReads : List Bytes :=
  [Text.utf8 "POST /a HTT", Text.utf8 "P/1.1\r\nContent-Length: 4\r\n\r\npi", Text.utf8 "ngGET /b"]

theorem frames_pingReads : Frames pingReads.flatten [pingRequest] .closed := by
  have hlength : pingDraft.body.length = pingDraft.request.contentLength?.getD 0 := by
    rw [request_pingDraft, contentLength?_pingRequest]
    decide +kernel
  have hslice := slice_of_draft pingDraft (by decide) hlength (Text.utf8 "GET /b")
  have hstream : pingDraft.head ++ pingDraft.body ++ Text.utf8 "GET /b" = pingReads.flatten := by
    decide +kernel
  have hlast : decide (Text.utf8 "GET /b") = .readMore := by decide +kernel
  have hfront := front_decide (s := Text.utf8 "GET /b") (by decide +kernel)
  rw [hlast] at hfront
  rw [hstream, request_pingDraft] at hslice
  exact .next (.slice hslice) (by decide +kernel) (.unfinished hfront)

/-- The request is handled with all of its body; of the other one nothing is, since the connection
is closed before its head is complete. -/
theorem exchange_of_three_reads :
    [] ∉ pingReads ∧ pingReads.flatten.length ≤ maxRequestSize ∧
      Frames pingReads.flatten [pingRequest] .closed ∧
      exchange (Pipeline.empty : Pipeline Unit) pingReads [] =
        answerAll Pipeline.empty [pingRequest] .closed ∧
      (exchange (Pipeline.empty : Pipeline Unit).recorded pingReads [] ⟨(), []⟩).state.requests =
        [pingRequest] := by
  have hreads : [] ∉ pingReads := by decide
  have hsize : pingReads.flatten.length ≤ maxRequestSize := by decide +kernel
  obtain ⟨⟨requests, ending, hframes, hall⟩, -⟩ := exchange_of_reads _ hreads hsize
  obtain ⟨rfl, rfl⟩ := hframes.unique hsize frames_pingReads
  obtain ⟨hexchange, -, hrequests⟩ := hall Pipeline.empty
  exact ⟨hreads, hsize, hframes, hexchange, hrequests () []⟩

end Connection
end HttpCache
