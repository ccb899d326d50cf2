import HttpCache.Sink.Capture

/-!
# HttpCache.Proofs.Sink.Withholding

Whole runs of calls on a capture, in front of any sink that keeps to the rules of sinks.

* `Sink.Lawful`: these rules; they speak of the body that a sink has taken so far.
* `Capture.Op`, `Plays`: the calls on a capture, and a run of them that gives no error.
* `Phase`: a capture is idle, or it holds output back, or output flows through it; each call
  keeps it in one of the three (`phase_apply`).
* `Effect`: what a call changes in the capture itself (`effect_of_apply`).
* `Account`: what is known of a capture after a run.
* `account_of_plays`: it holds after every run from a fresh sink.
-/

namespace HttpCache

/-- The rules of sinks, with the octets of the body that a sink has taken. A write that fails
promises nothing. -/
structure Sink.Lawful {τ : Type} [Sink τ] (body : τ → Bytes) : Prop where
  /-- Headers are recorded, also after the status. -/
  headers_setHeaders : ∀ (h : Headers) (t : τ), Sink.headers (Sink.setHeaders h t) = h
  status_setHeaders : ∀ (h : Headers) (t : τ), Sink.status (Sink.setHeaders h t) = Sink.status t
  body_setHeaders : ∀ (h : Headers) (t : τ), body (Sink.setHeaders h t) = body t
  /-- The first status stays. -/
  status_writeStatus : ∀ (status : Status) (t : τ),
    Sink.status (Sink.writeStatus status t) = some ((Sink.status t).getD status)
  headers_writeStatus : ∀ (status : Status) (t : τ),
    Sink.headers (Sink.writeStatus status t) = Sink.headers t
  body_writeStatus : ∀ (status : Status) (t : τ), body (Sink.writeStatus status t) = body t
  /-- A write takes a beginning of the chunk; without a status before it, that is 200. -/
  write_ok : ∀ {chunk : Bytes} {n : Nat} {t t' : τ}, Sink.write chunk t = (.ok n, t') →
    n ≤ chunk.length ∧ body t' = body t ++ chunk.take n ∧
      Sink.status t' = some ((Sink.status t).getD .ok) ∧ Sink.headers t' = Sink.headers t

theorem Buffer.lawful : Sink.Lawful Buffer.body where
  headers_setHeaders _ _ := rfl
  status_setHeaders _ _ := rfl
  body_setHeaders _ _ := rfl
  status_writeStatus _ _ := rfl
  headers_writeStatus _ _ := rfl
  body_writeStatus _ _ := rfl
  write_ok {chunk n t t'} h := by
    cases h
    exact ⟨Nat.le_refl _, by rw [List.take_length], rfl, rfl⟩

variable {τ : Type} [Sink τ] {body : τ → Bytes}

theorem Sink.Lawful.writeAll_ok (hb : Sink.Lawful body) {short : WriteError} {chunk : Bytes}
    {t t' : τ} (h : Sink.writeAll short chunk t = (.ok (), t')) :
    body t' = body t ++ chunk ∧ Sink.status t' = some ((Sink.status t).getD .ok) ∧
      Sink.headers t' = Sink.headers t := by
  unfold Sink.writeAll at h
  split at h
  · cases h
  · rename_i n t₁ hw
    split at h
    · rename_i hn
      cases h
      obtain ⟨-, hbody, hstatus, hheaders⟩ := hb.write_ok hw
      exact ⟨by rw [hbody, hn, List.take_length], hstatus, hheaders⟩
    · cases h

namespace Capture

/-! ## Calls and runs -/

inductive Op where
  | writeStatus (status : Status)
  | write (chunk : Bytes)
  | modifyHeaders (f : Headers → Headers)
  | release
  | takeBuffer

namespace Op

/-- What a call does, and the octets that it gives. -/
def apply : Op → Capture τ → Except WriteError Bytes × Capture τ
  | writeStatus status, c => (.ok [], c.writeStatus status)
  | write chunk, c => ((c.write chunk).1.map fun _ => [], (c.write chunk).2)
  | modifyHeaders f, c => (.ok [], Sink.modifyHeaders f c)
  | release, c => (c.release.1.map fun _ => [], c.release.2)
  | takeBuffer, c => (.ok c.takeBuffer.1, c.takeBuffer.2)

/-- What a call does to a sink without a capture in front of it, if it is about headers only. -/
def direct : Op → τ → τ
  | modifyHeaders f, t => Sink.modifyHeaders f t
  | _, t => t

def chunk : Op → Bytes
  | write chunk => chunk
  | _ => []

/-- The status that a call commits if there is none so far. -/
def commits : Op → Option Status
  | writeStatus status => some status
  | write _ => some .ok
  | _ => none

end Op

/-- The calls `ops` in order give no error and the octets `read`, and end in `c`. -/
inductive Plays (first : Capture τ) : List Op → Bytes → Capture τ → Prop where
  | start : Plays first [] [] first
  | call {ops : List Op} {op : Op} {read bytes : Bytes} {c c' : Capture τ}
      (h : Plays first ops read c) (hop : op.apply c = (.ok bytes, c')) :
      Plays first (ops ++ [op]) (read ++ bytes) c'

def written (ops : List Op) : Bytes := ops.flatMap Op.chunk

def committed (ops : List Op) : Option Status := ops.findSome? Op.commits

/-- No call has taken octets that were held back. -/
def KeepsHeld (first : Capture τ) (ops : List Op) : Prop :=
  ∀ before after read c, ops = before ++ .takeBuffer :: after → Plays first before read c →
    c.isWithholding = false

/-! ## What a call does -/

variable {c c' : Capture τ} {op : Op} {bytes : Bytes}

theorem write_of_apply {chunk : Bytes} (h : (Op.write chunk).apply c = (.ok bytes, c')) :
    bytes = [] ∧ ∃ n, c.write chunk = (.ok n, c') := by
  obtain ⟨hok, rfl⟩ := Prod.mk.inj h
  cases hw : c.write chunk with
  | mk result c' =>
    rw [hw] at hok
    cases result with
    | error e => cases hok
    | ok n => cases hok; exact ⟨rfl, n, rfl⟩

theorem release_of_apply (h : Op.release.apply c = (.ok bytes, c')) :
    bytes = [] ∧ c.release = (.ok (), c') := by
  obtain ⟨hok, rfl⟩ := Prod.mk.inj h
  cases hw : c.release with
  | mk result c' =>
    rw [hw] at hok
    cases result with
    | error e => cases hok
    | ok => cases hok; exact ⟨rfl, rfl⟩

omit [Sink τ] in
theorem status_of_isWithholding (h : c.isWithholding = true) :
    ∃ status ∈ c.triggers, c.status = some status := by
  simp only [isWithholding, Bool.and_eq_true, Option.any_eq_true] at h
  obtain ⟨-, status, hs, ht⟩ := h
  exact ⟨status, by simpa using ht, hs⟩

theorem writeStatus_some {status : Status} (h : c.status = some status) (other : Status) :
    c.writeStatus other = c := by
  simp only [writeStatus, h]

theorem writeStatus_none (h : c.status = none) (status : Status) :
    c.writeStatus status =
      { c with
        status := some status
        inner := if !c.released && c.useStale && c.triggers.contains status then c.inner
          else Sink.writeStatus status c.inner } := by
  have hw : ({ c with status := some status } : Capture τ).isWithholding =
      (!c.released && c.useStale && c.triggers.contains status) := rfl
  simp only [writeStatus, h, hw]
  split <;> rfl

/-- A chunk without a status before it is a status 200 and then the chunk. -/
theorem write_none (h : c.status = none) (chunk : Bytes) :
    c.write chunk = (c.writeStatus .ok).write chunk := by
  have hs : (c.writeStatus .ok).status = some .ok := by rw [writeStatus_none h]
  unfold write
  simp only [h, hs, Option.isNone_none, Option.isNone_some, if_true, Bool.false_eq_true, if_false]

theorem write_held (h : c.isWithholding = true) (chunk : Bytes) :
    c.write chunk = (.ok chunk.length, { c with buffer := c.buffer ++ chunk }) := by
  have hw : ({ c with buffer := c.buffer ++ chunk } : Capture τ).isWithholding = true := h
  obtain ⟨status, -, hs⟩ := status_of_isWithholding h
  rw [hs] at hw
  simp only [write, hs, Option.isNone_some, Bool.false_eq_true, if_false, hw, if_true]

/-- The sink behind has taken all of a chunk that is forwarded without an error. -/
theorem forward_ok (hb : Sink.Lawful body) {chunk : Bytes} (h : c.forward chunk = (.ok (), c')) :
    ∃ inner, c' = { c with inner } ∧ body inner = body c.inner ++ chunk ∧
      Sink.status inner = some ((Sink.status c.inner).getD .ok) ∧
      Sink.headers inner = Sink.headers c.inner := by
  unfold forward at h
  split at h
  rename_i result inner hw
  cases h
  exact ⟨inner, rfl, hb.writeAll_ok hw⟩

theorem write_flowing (hb : Sink.Lawful body) {status : Status} (hs : c.status = some status)
    (hw : c.isWithholding = false) {chunk : Bytes} {n : Nat} (h : c.write chunk = (.ok n, c')) :
    ∃ inner, c' = { c with buffer := c.buffer ++ chunk, inner } ∧
      body inner = body c.inner ++ chunk ∧
      Sink.status inner = some ((Sink.status c.inner).getD .ok) ∧
      Sink.headers inner = Sink.headers c.inner := by
  obtain ⟨inner, buffer, _, useStale, triggers, released⟩ := c
  cases hs
  have hw' : isWithholding (τ := τ) ⟨inner, buffer ++ chunk, some status, useStale, triggers,
      released⟩ = false := hw
  simp only [write, Option.isNone_some, Bool.false_eq_true, if_false, hw'] at h
  split at h
  · cases h
  · rename_i hf
    cases h
    exact forward_ok hb hf

theorem release_flowing (h : c.isWithholding = false) : c.release = (.ok (), c) := by
  rw [release, if_neg (by simp [h])]

/-- A release commits the status and forwards what is remembered. -/
theorem release_held (hb : Sink.Lawful body) (hw : c.isWithholding = true)
    (h : c.release = (.ok (), c')) :
    ∃ status inner, c.status = some status ∧ c' = { c with released := true, inner } ∧
      body inner = body c.inner ++ c.buffer ∧
      Sink.status inner = some ((Sink.status c.inner).getD status) ∧
      Sink.headers inner = Sink.headers c.inner := by
  obtain ⟨status, -, hs⟩ := status_of_isWithholding hw
  obtain ⟨inner, buffer, _, useStale, triggers, released⟩ := c
  cases hs
  simp only [release, hw, if_true] at h
  split at h
  · rename_i hbuffer
    cases h
    refine ⟨status, _, rfl, rfl, ?_, hb.status_writeStatus _ _, hb.headers_writeStatus _ _⟩
    rw [List.isEmpty_iff.mp hbuffer, List.append_nil, hb.body_writeStatus]
  · obtain ⟨inner, rfl, hbody, hstatus, hheaders⟩ := forward_ok hb h
    refine ⟨status, inner, rfl, rfl, ?_, ?_, ?_⟩
    · rw [hbody, hb.body_writeStatus]
    · rw [hstatus, hb.status_writeStatus]
      rfl
    · rw [hheaders, hb.headers_writeStatus]

/-! ## The three phases -/

/-- Where a capture stands after the chunks `total`. Octets may only have been lost to the sink
behind it if `whole` is false. -/
inductive Phase (body : τ → Bytes) (total : Bytes) (whole : Prop) (c : Capture τ) : Prop where
  /-- There is no status yet, and no octets. -/
  | idle (hstatus : c.status = none) (htotal : total = []) (hbuffer : c.buffer = [])
      (hsink : Sink.status c.inner = none) (hbody : body c.inner = [])
  /-- The sink behind knows of nothing. -/
  | held (hw : c.isWithholding = true) (hbuffer : whole → c.buffer = total)
      (hsink : Sink.status c.inner = none) (hbody : body c.inner = [])
  /-- The sink behind has everything. -/
  | flowing {status : Status} (hw : c.isWithholding = false) (hstatus : c.status = some status)
      (hsink : Sink.status c.inner = some status) (hbody : whole → body c.inner = total)

variable {total : Bytes} {whole : Prop}

theorem phase_writeStatus (hb : Sink.Lawful body) (hp : Phase body total whole c)
    (status : Status) : Phase body total whole (c.writeStatus status) := by
  cases hp with
  | idle hstatus htotal hbuffer hsink hbody =>
    rw [writeStatus_none hstatus]
    by_cases hw : (!c.released && c.useStale && c.triggers.contains status) = true
    · rw [if_pos hw]
      exact .held hw (fun _ => hbuffer.trans htotal.symm) hsink hbody
    · rw [if_neg hw]
      refine .flowing (Bool.eq_false_iff.mpr hw) rfl ?_ fun _ => ?_
      · rw [hb.status_writeStatus, hsink]
        rfl
      · rw [hb.body_writeStatus, hbody, htotal]
  | held hw hbuffer hsink hbody =>
    obtain ⟨_, -, hs⟩ := status_of_isWithholding hw
    rw [writeStatus_some hs]
    exact .held hw hbuffer hsink hbody
  | flowing hw hstatus hsink hbody =>
    rw [writeStatus_some hstatus]
    exact .flowing hw hstatus hsink hbody

theorem phase_write (hb : Sink.Lawful body) (hp : Phase body total whole c) {chunk : Bytes}
    {n : Nat} (h : c.write chunk = (.ok n, c')) : Phase body (total ++ chunk) whole c' := by
  have hsome : ∀ {c : Capture τ} {status : Status}, c.status = some status →
      Phase body total whole c → c.write chunk = (.ok n, c') →
      Phase body (total ++ chunk) whole c' := by
    intro c status hs hp h
    cases hp with
    | idle hstatus => rw [hs] at hstatus; cases hstatus
    | held hw hbuffer hsink hbody =>
      rw [write_held hw] at h
      cases h
      exact .held hw (fun hwhole => by rw [hbuffer hwhole]) hsink hbody
    | flowing hw hstatus hsink hbody =>
      obtain ⟨inner, rfl, hbody', hsink', -⟩ := write_flowing hb hstatus hw h
      rw [hsink] at hsink'
      exact .flowing hw hstatus hsink' fun hwhole => by rw [hbody', hbody hwhole]
  cases hs : c.status with
  | some status => exact hsome hs hp h
  | none =>
    rw [write_none hs] at h
    have hok : (c.writeStatus .ok).status = some .ok := by rw [writeStatus_none hs]
    exact hsome hok (phase_writeStatus hb hp .ok) h

theorem phase_release (hb : Sink.Lawful body) (hp : Phase body total whole c)
    (h : c.release = (.ok (), c')) : Phase body total whole c' := by
  cases hp with
  | idle hstatus htotal hbuffer hsink hbody =>
    have hw : c.isWithholding = false := by simp [isWithholding, hstatus]
    rw [release_flowing hw] at h
    cases h
    exact .idle hstatus htotal hbuffer hsink hbody
  | held hw hbuffer hsink hbody =>
    obtain ⟨status, inner, hs, rfl, hbody', hsink', -⟩ := release_held hb hw h
    rw [hsink] at hsink'
    refine .flowing rfl hs hsink' fun hwhole => ?_
    rw [hbody', hbody, hbuffer hwhole, List.nil_append]
  | flowing hw hstatus hsink hbody =>
    rw [release_flowing hw] at h
    cases h
    exact .flowing hw hstatus hsink hbody

theorem phase_modifyHeaders (hb : Sink.Lawful body) (hp : Phase body total whole c)
    (f : Headers → Headers) : Phase body total whole (Sink.modifyHeaders f c) := by
  have hinner : (Sink.modifyHeaders f c).inner = Sink.modifyHeaders f c.inner := rfl
  have hstatus' : Sink.status (Sink.modifyHeaders f c.inner) = Sink.status c.inner :=
    hb.status_setHeaders _ _
  have hbody' : body (Sink.modifyHeaders f c.inner) = body c.inner := hb.body_setHeaders _ _
  cases hp with
  | idle hstatus htotal hbuffer hsink hbody =>
    exact .idle hstatus htotal hbuffer (by rw [hinner, hstatus', hsink])
      (by rw [hinner, hbody', hbody])
  | held hw hbuffer hsink hbody =>
    exact .held hw hbuffer (by rw [hinner, hstatus', hsink]) (by rw [hinner, hbody', hbody])
  | flowing hw hstatus hsink hbody =>
    exact .flowing hw hstatus (by rw [hinner, hstatus', hsink])
      fun hwhole => by rw [hinner, hbody', hbody hwhole]

/-- Octets that are held back are lost when they are taken. -/
theorem phase_takeBuffer (hp : Phase body total whole c) :
    Phase body total (whole ∧ c.isWithholding = false) c.takeBuffer.2 := by
  cases hp with
  | idle hstatus htotal hbuffer hsink hbody => exact .idle hstatus htotal rfl hsink hbody
  | held hw hbuffer hsink hbody =>
    refine .held hw (fun hwhole => ?_) hsink hbody
    rw [hw] at hwhole
    cases hwhole.2
  | flowing hw hstatus hsink hbody =>
    exact .flowing hw hstatus hsink fun hwhole => hbody hwhole.1

theorem Phase.mono {whole' : Prop} (hp : Phase body total whole c) (h : whole' → whole) :
    Phase body total whole' c := by
  cases hp with
  | idle hstatus htotal hbuffer hsink hbody => exact .idle hstatus htotal hbuffer hsink hbody
  | held hw hbuffer hsink hbody => exact .held hw (fun hwhole => hbuffer (h hwhole)) hsink hbody
  | flowing hw hstatus hsink hbody =>
    exact .flowing hw hstatus hsink fun hwhole => hbody (h hwhole)

/-! ## What else a call does -/

/-- What a chunk that is written without an error changes, apart from the sink behind. -/
theorem write_ok (hb : Sink.Lawful body) {chunk : Bytes} {n : Nat}
    (h : c.write chunk = (.ok n, c')) :
    ∃ inner, c' = { c with
        buffer := c.buffer ++ chunk, status := some (c.status.getD .ok), inner } ∧
      Sink.headers inner = Sink.headers c.inner := by
  have hsome : ∀ {c : Capture τ} {status : Status}, c.status = some status →
      c.write chunk = (.ok n, c') → ∃ inner,
        c' = { c with buffer := c.buffer ++ chunk, inner } ∧
          Sink.headers inner = Sink.headers c.inner := by
    intro c status hs h
    cases hw : c.isWithholding with
    | true =>
      rw [write_held hw] at h
      cases h
      exact ⟨c.inner, rfl, rfl⟩
    | false =>
      obtain ⟨inner, rfl, -, -, hheaders⟩ := write_flowing hb hs hw h
      exact ⟨inner, rfl, hheaders⟩
  cases hs : c.status with
  | some status =>
    obtain ⟨inner, rfl, hheaders⟩ := hsome hs h
    exact ⟨inner, by rw [hs]; rfl, hheaders⟩
  | none =>
    rw [write_none hs] at h
    have hok : (c.writeStatus .ok).status = some .ok := by rw [writeStatus_none hs]
    obtain ⟨inner, rfl, hheaders⟩ := hsome hok h
    rw [writeStatus_none hs] at hheaders ⊢
    refine ⟨inner, rfl, hheaders.trans ?_⟩
    dsimp only
    split
    · rfl
    · exact hb.headers_writeStatus _ _

theorem release_ok (hb : Sink.Lawful body) (h : c.release = (.ok (), c')) :
    ∃ inner, c' = { c with released := c.released || c.isWithholding, inner } ∧
      Sink.headers inner = Sink.headers c.inner := by
  cases hw : c.isWithholding with
  | true =>
    obtain ⟨_, inner, -, rfl, -, -, hheaders⟩ := release_held hb hw h
    exact ⟨inner, by rw [Bool.or_true], hheaders⟩
  | false =>
    rw [release_flowing hw] at h
    cases h
    exact ⟨c.inner, by rw [Bool.or_false], rfl⟩

/-- What a call changes, apart from the status and the body of the sink behind. -/
structure Effect (op : Op) (c : Capture τ) (bytes : Bytes) (c' : Capture τ) : Prop where
  status : c'.status = c.status.or op.commits
  octets : bytes ++ c'.buffer = c.buffer ++ op.chunk
  headers : Sink.headers c'.inner = Sink.headers (op.direct c.inner)
  useStale : c'.useStale = c.useStale
  triggers : c'.triggers = c.triggers
  released : c'.released = true ↔ c.released = true ∨ op = .release ∧ c.isWithholding = true

theorem effect_of_apply (hb : Sink.Lawful body) (h : op.apply c = (.ok bytes, c')) :
    Effect op c bytes c' := by
  cases op with
  | writeStatus status =>
    cases h
    cases hs : c.status with
    | some first =>
      rw [writeStatus_some hs]
      exact ⟨by rw [hs]; rfl, (List.append_nil _).symm, rfl, rfl, rfl, by simp⟩
    | none =>
      rw [writeStatus_none hs]
      refine ⟨by rw [hs]; rfl, (List.append_nil _).symm, ?_, rfl, rfl, by simp⟩
      dsimp only [Op.direct]
      split
      · rfl
      · exact hb.headers_writeStatus _ _
  | write chunk =>
    obtain ⟨rfl, n, hw⟩ := write_of_apply h
    obtain ⟨inner, rfl, hheaders⟩ := write_ok hb hw
    exact ⟨by cases c.status <;> rfl, rfl, hheaders, rfl, rfl, by simp⟩
  | modifyHeaders f =>
    cases h
    exact ⟨Option.or_none.symm, (List.append_nil _).symm, rfl, rfl, rfl,
      by simp [Sink.modifyHeaders, Sink.setHeaders]⟩
  | release =>
    obtain ⟨rfl, hr⟩ := release_of_apply h
    obtain ⟨inner, rfl, hheaders⟩ := release_ok hb hr
    exact ⟨Option.or_none.symm, (List.append_nil _).symm, hheaders, rfl, rfl, by simp⟩
  | takeBuffer =>
    cases h
    exact ⟨Option.or_none.symm, by simp [takeBuffer, Op.chunk], rfl, rfl, rfl,
      by simp [takeBuffer]⟩

theorem phase_apply (hb : Sink.Lawful body) (hp : Phase body total whole c)
    (h : op.apply c = (.ok bytes, c')) :
    Phase body (total ++ op.chunk) (whole ∧ (op = .takeBuffer → c.isWithholding = false)) c' := by
  cases op with
  | writeStatus status =>
    cases h
    simpa only [Op.chunk, List.append_nil] using (phase_writeStatus hb hp status).mono And.left
  | write chunk =>
    obtain ⟨-, n, hw⟩ := write_of_apply h
    exact (phase_write hb hp hw).mono And.left
  | modifyHeaders f =>
    cases h
    simpa only [Op.chunk, List.append_nil] using (phase_modifyHeaders hb hp f).mono And.left
  | release =>
    obtain ⟨-, hr⟩ := release_of_apply h
    simpa only [Op.chunk, List.append_nil] using (phase_release hb hp hr).mono And.left
  | takeBuffer =>
    cases h
    rw [Op.chunk, List.append_nil]
    · exact (phase_takeBuffer hp).mono fun hwhole => ⟨hwhole.1, hwhole.2 rfl⟩
    · rintro _ ⟨⟩

/-! ## Withholding starts once -/

omit [Sink τ] in
theorem not_withholding_of_released (h : c.released = true) : c.isWithholding = false := by
  rw [isWithholding, h]
  rfl

omit [Sink τ] in
theorem withholding_iff : c.isWithholding = true ↔
    c.released = false ∧ c.useStale = true ∧ ∃ status ∈ c.triggers, c.status = some status := by
  constructor
  · intro h
    refine ⟨?_, ?_, status_of_isWithholding h⟩
    · cases hr : c.released with
      | false => rfl
      | true => rw [not_withholding_of_released hr] at h; cases h
    · simp only [isWithholding, Bool.and_eq_true] at h
      exact h.1.2
  · rintro ⟨hr, hu, status, ht, hs⟩
    simp [isWithholding, hr, hu, hs, ht]

theorem Effect.starts (he : Effect op c bytes c') (hw : c.isWithholding = false)
    (hw' : c'.isWithholding = true) :
    c.status = none ∧ c.useStale = true ∧ ∃ status ∈ c.triggers, op.commits = some status := by
  obtain ⟨hr, hu, status, ht, hs⟩ := withholding_iff.mp hw'
  rw [he.useStale] at hu
  rw [he.triggers] at ht
  have hr₀ : c.released = false :=
    Bool.eq_false_iff.mpr fun h => by rw [he.released.mpr (.inl h)] at hr; cases hr
  rw [he.status] at hs
  cases hs₀ : c.status with
  | none => exact ⟨rfl, hu, status, ht, by rw [hs₀] at hs; exact hs⟩
  | some first =>
    -- a status that was there before would have been a trigger already
    rw [hs₀] at hs
    cases hs
    rw [withholding_iff.mpr ⟨hr₀, hu, _, ht, hs₀⟩] at hw
    cases hw

theorem Effect.ends (he : Effect op c bytes c') (hw : c.isWithholding = true)
    (hw' : c'.isWithholding = false) : op = .release ∧ c'.released = true := by
  obtain ⟨hr, hu, status, ht, hs⟩ := withholding_iff.mp hw
  cases hr' : c'.released with
  | true =>
    obtain h | ⟨hop, -⟩ := he.released.mp hr'
    · rw [hr] at h; cases h
    · exact ⟨hop, rfl⟩
  | false =>
    have hs' : c'.status = some status := by rw [he.status, hs]; rfl
    rw [withholding_iff.mpr ⟨hr', he.useStale.trans hu, status, he.triggers ▸ ht, hs'⟩] at hw'
    cases hw'

variable {ops : List Op} {read : Bytes}

theorem Plays.released (hb : Sink.Lawful body) (h : Plays c ops read c')
    (hr : c.released = true) : c'.released = true := by
  induction h with
  | start => exact hr
  | call _ hop ih => exact (effect_of_apply hb hop).released.mpr (.inl ih)

theorem Plays.withholding_or_released (hb : Sink.Lawful body) (h : Plays c ops read c')
    (hw : c.isWithholding = true) : c'.isWithholding = true ∨ c'.released = true := by
  induction h with
  | start => exact .inl hw
  | @call _ _ _ _ _ c' _ hop ih =>
    have he := effect_of_apply hb hop
    obtain hw₁ | hr₁ := ih
    · cases hw' : c'.isWithholding with
      | true => exact .inl rfl
      | false => exact .inr (he.ends hw₁ hw').2
    · exact .inr (he.released.mpr (.inl hr₁))

/-! ## Whole runs -/

/-- What is known of the capture `c` after the calls `ops` in front of `sink`, which have given
the octets `read`. -/
structure Account (body : τ → Bytes) (sink : τ) (useStale : Bool) (triggers : List Status)
    (ops : List Op) (read : Bytes) (c : Capture τ) : Prop where
  status : c.status = committed ops
  octets : read ++ c.buffer = written ops
  held : c.isWithholding = true → Sink.status c.inner = none ∧ body c.inner = []
  flowing : ∀ status, c.status = some status → c.isWithholding = false →
    Sink.status c.inner = some status ∧
      (KeepsHeld (start sink useStale triggers) ops → body c.inner = written ops)
  starts : ∀ (op : Op) (bytes : Bytes) (c' : Capture τ), op.apply c = (.ok bytes, c') →
    c.isWithholding = false → c'.isWithholding = true →
      useStale = true ∧ committed ops = none ∧ ∃ status ∈ triggers, op.commits = some status
  ends : ∀ (op : Op) (bytes : Bytes) (c' : Capture τ), op.apply c = (.ok bytes, c') →
    c.isWithholding = true → c'.isWithholding = false → op = .release
  /-- When output was held back and then flows, it is not held back again. -/
  once : ∀ mid late read₁ read₂ c₁ c₂, c.isWithholding = true → Plays c mid read₁ c₁ →
    c₁.isWithholding = false → Plays c₁ late read₂ c₂ → c₂.isWithholding = false
  headers : Sink.headers c.inner = Sink.headers (ops.foldl (fun t op => op.direct t) sink)

theorem written_append (ops : List Op) (op : Op) :
    written (ops ++ [op]) = written ops ++ op.chunk := by
  simp [written]

theorem committed_append (ops : List Op) (op : Op) :
    committed (ops ++ [op]) = (committed ops).or op.commits := by
  simp [committed, List.findSome?_append]

theorem headers_direct (hb : Sink.Lawful body) {t t' : τ} (h : Sink.headers t = Sink.headers t')
    (op : Op) : Sink.headers (op.direct t) = Sink.headers (op.direct t') := by
  cases op with
  | modifyHeaders f =>
    simp only [Op.direct, Sink.modifyHeaders, hb.headers_setHeaders, h]
  | _ => exact h

/-- The part of an account that is carried from call to call. -/
structure Carried (body : τ → Bytes) (first : Capture τ) (ops : List Op) (read : Bytes)
    (c : Capture τ) : Prop where
  status : c.status = committed ops
  octets : read ++ c.buffer = written ops
  headers : Sink.headers c.inner = Sink.headers (ops.foldl (fun t op => op.direct t) first.inner)
  useStale : c.useStale = first.useStale
  triggers : c.triggers = first.triggers
  phase : Phase body (written ops) (KeepsHeld first ops) c

theorem carried_start (useStale : Bool) (triggers : List Status) {sink : τ}
    (hstatus : Sink.status sink = none) (hbody : body sink = []) :
    Carried body (start sink useStale triggers) [] [] (start sink useStale triggers) where
  status := rfl
  octets := rfl
  headers := rfl
  useStale := rfl
  triggers := rfl
  phase := .idle rfl rfl rfl hstatus hbody

theorem KeepsHeld.append {first : Capture τ} (h : KeepsHeld first (ops ++ [op]))
    (hplays : Plays first ops read c) :
    KeepsHeld first ops ∧ (op = .takeBuffer → c.isWithholding = false) := by
  refine ⟨fun before after read c hops => h before (after ++ [op]) read c (by simp [hops]), ?_⟩
  rintro rfl
  exact h ops [] read c rfl hplays

theorem Plays.carried (hb : Sink.Lawful body) {first : Capture τ}
    (hfirst : Carried body first [] [] first) (h : Plays first ops read c) :
    Carried body first ops read c := by
  induction h with
  | start => exact hfirst
  | call hplays hop ih =>
    have he := effect_of_apply hb hop
    refine ⟨?_, ?_, ?_, he.useStale.trans ih.useStale, he.triggers.trans ih.triggers, ?_⟩
    · rw [he.status, ih.status, committed_append]
    · rw [List.append_assoc, he.octets, ← List.append_assoc, ih.octets, written_append]
    · rw [he.headers, List.foldl_append]
      exact headers_direct hb ih.headers _
    · rw [written_append]
      exact (phase_apply hb ih.phase hop).mono fun hkeeps => hkeeps.append hplays

/-- **Everything that is written through a capture is accounted for**: for every run of calls
without an error in front of a fresh sink, the first committed status is recorded, what was taken
and what is remembered are all the octets that were written, the sink behind knows of nothing
while output is held back and has everything otherwise, and output is held back at most once, from
the commitment of a trigger to the release. -/
theorem account_of_plays (hb : Sink.Lawful body) (useStale : Bool) (triggers : List Status)
    {sink : τ} (hstatus : Sink.status sink = none) (hbody : body sink = [])
    (h : Plays (start sink useStale triggers) ops read c) :
    Account body sink useStale triggers ops read c := by
  have hc := h.carried hb (carried_start useStale triggers hstatus hbody)
  refine ⟨hc.status, hc.octets, ?held, ?flowing, ?starts, ?ends, ?once, hc.headers⟩
  case held =>
    intro hw
    cases hc.phase with
    | idle hs => obtain ⟨_, -, hs'⟩ := status_of_isWithholding hw; rw [hs] at hs'; cases hs'
    | held _ _ hsink hbody => exact ⟨hsink, hbody⟩
    | flowing hw' => rw [hw] at hw'; cases hw'
  case flowing =>
    intro status hs hw
    cases hc.phase with
    | idle hs' => rw [hs] at hs'; cases hs'
    | held hw' => rw [hw] at hw'; cases hw'
    | flowing _ hs' hsink hbody =>
      rw [hs] at hs'
      cases hs'
      exact ⟨hsink, hbody⟩
  case starts =>
    intro op bytes c' hop hw hw'
    obtain ⟨hs, hu, htrigger⟩ := (effect_of_apply hb hop).starts hw hw'
    rw [hc.useStale] at hu
    rw [hc.triggers] at htrigger
    exact ⟨hu, hc.status.symm.trans hs, htrigger⟩
  case ends =>
    intro op bytes c' hop hw hw'
    exact ((effect_of_apply hb hop).ends hw hw').1
  case once =>
    intro mid late _ _ c₁ c₂ hw hmid hw₁ hlate
    obtain hw₁' | hr := hmid.withholding_or_released hb hw
    · rw [hw₁] at hw₁'; cases hw₁'
    · exact not_withholding_of_released (hlate.released hb hr)

/-- A failure is held back, released and then continued before its octets are taken. -/
theorem account_of_failed_response :
    Sink.status Buffer.empty = none ∧ Buffer.body Buffer.empty = [] ∧
      Account Buffer.body Buffer.empty true [.internalServerError]
        [.writeStatus .internalServerError, .write [1, 2], .release, .write [3], .takeBuffer]
        [1, 2, 3]
        ⟨⟨some .internalServerError, .empty, [1, 2, 3]⟩, [], some .internalServerError, true,
          [.internalServerError], true⟩ := by
  have committed : Plays (start Buffer.empty true [.internalServerError]) _ _ _ :=
    .call .start (show (Op.writeStatus .internalServerError).apply _ = (.ok [], _) from rfl)
  have held := committed.call (show (Op.write [1, 2]).apply _ = (.ok [], _) from rfl)
  have sent := held.call (show Op.release.apply _ = (.ok [], _) from rfl)
  have continued := sent.call (show (Op.write [3]).apply _ = (.ok [], _) from rfl)
  have taken := continued.call (show Op.takeBuffer.apply _ = (.ok [1, 2, 3], _) from rfl)
  exact ⟨rfl, rfl, account_of_plays Buffer.lawful true [.internalServerError] rfl rfl taken⟩

end Capture
end HttpCache
