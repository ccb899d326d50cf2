import HttpCache.Proofs.Sink.Metered
import HttpCache.Proofs.Sink.Withholding

/-!
# HttpCache.Proofs.Sink.Delivery

What has come of the octets that a capture held back, in front of any sink, also one that fails.

* `Capture.Trial` — a run of calls that goes on after an error; it remembers what was held back
  and whether a release has failed.
* `Stage` — a capture is idle, or it holds output back, or output flows through it; each call keeps
  it in one of the three (`stage_call`).
* `delivered_of_release` — a release without an error has delivered all that was held back, unless
  one has failed before: then a release is without an error and does nothing.
-/

namespace HttpCache
namespace Capture

variable {τ : Type} [Sink τ]

/-! ## Runs that go on after an error -/

structure Trial (τ : Type) where
  capture : Capture τ
  /-- The octets that were written while output was held back. -/
  held : Bytes
  /-- Whether a release has failed. -/
  failed : Bool

/-- Whether a call is a release that fails. -/
def Op.failsRelease : Op → Except WriteError Bytes → Bool
  | release, .error _ => true
  | _, _ => false

namespace Trial

def call (a : Trial τ) (op : Op) : Trial τ :=
  let answer := op.apply a.capture
  { capture := answer.2
    held := if answer.2.isWithholding then a.held ++ op.chunk else a.held
    failed := a.failed || op.failsRelease answer.1 }

def run (first : Capture τ) (ops : List Op) : Trial τ := ops.foldl call ⟨first, [], false⟩

end Trial

/-! ## What the calls do, with an error or without -/

variable {c : Capture τ}

theorem write_flowing_eq {status : Status} (hs : c.status = some status)
    (hw : c.isWithholding = false) (chunk : Bytes) :
    (c.write chunk).2 = { c with
      buffer := c.buffer ++ chunk
      inner := (Sink.writeAll .shortForward chunk c.inner).2 } := by
  have hw' : ({ c with buffer := c.buffer ++ chunk } : Capture τ).isWithholding = false := hw
  rw [hs] at hw'
  simp only [write, hs, Option.isNone_some, Bool.false_eq_true, if_false, hw', forward]
  cases Sink.writeAll .shortForward chunk c.inner with
  | mk result inner => cases result <;> rfl

/-- A release counts as one before it is known whether the sink takes anything. -/
theorem release_held_eq {status : Status} (hs : c.status = some status)
    (hw : c.isWithholding = true) :
    c.release =
      let opened := { c with released := true, inner := Sink.writeStatus status c.inner }
      if c.buffer.isEmpty then (.ok (), opened) else opened.forward c.buffer := by
  simp only [release, hw, if_true, hs]

theorem forward_eq (chunk : Bytes) (c : Capture τ) :
    c.forward chunk =
      ((Sink.writeAll .shortForward chunk c.inner).1,
        { c with inner := (Sink.writeAll .shortForward chunk c.inner).2 }) := rfl

/-- Nothing is held back after a release, whatever comes of it. -/
theorem isWithholding_release (c : Capture τ) : c.release.2.isWithholding = false := by
  cases hw : c.isWithholding with
  | false => rw [release_flowing hw]; exact hw
  | true =>
    obtain ⟨status, -, hs⟩ := status_of_isWithholding hw
    rw [release_held_eq hs hw]
    refine not_withholding_of_released ?_
    dsimp only
    split <;> rfl

/-! ## The three stages -/

/-- Where a capture in front of a metered sink stands, with what was held back and whether a
release has failed. -/
inductive Stage (held : Bytes) (failed : Bool) (c : Capture (Metered τ)) : Prop where
  /-- There is no status yet, and no octets. -/
  | idle (hstatus : c.status = none) (hbuffer : c.buffer = []) (htaken : c.inner.taken = [])
      (hheld : held = []) (hfailed : failed = false)
  /-- The sink behind has taken nothing. -/
  | holding (hw : c.isWithholding = true) (hbuffer : c.buffer = held)
      (htaken : c.inner.taken = []) (hfailed : failed = false)
  /-- The sink behind has taken what was held back, unless a release has failed. -/
  | flowing {status : Status} (hw : c.isWithholding = false) (hstatus : c.status = some status)
      (hheld : failed = false → held <+: c.inner.taken)

variable {held : Bytes} {failed : Bool} {c : Capture (Metered τ)}

theorem stage_writeStatus (hc : Stage held failed c) (status : Status) :
    Stage held failed (c.writeStatus status) := by
  cases hc with
  | idle hstatus hbuffer htaken hheld hfailed =>
    rw [writeStatus_none hstatus]
    by_cases hw : (!c.released && c.useStale && c.triggers.contains status) = true
    · rw [if_pos hw]
      exact .holding hw (hbuffer.trans hheld.symm) htaken hfailed
    · rw [if_neg hw]
      refine .flowing (Bool.eq_false_iff.mpr hw) rfl fun _ => ?_
      rw [hheld]
      exact List.nil_prefix
  | holding hw hbuffer htaken hfailed =>
    obtain ⟨_, -, hs⟩ := status_of_isWithholding hw
    rw [writeStatus_some hs]
    exact .holding hw hbuffer htaken hfailed
  | flowing hw hstatus hheld =>
    rw [writeStatus_some hstatus]
    exact .flowing hw hstatus hheld

theorem stage_write (hc : Stage held failed c) (chunk : Bytes) :
    Stage (if (c.write chunk).2.isWithholding then held ++ chunk else held) failed
      (c.write chunk).2 := by
  have hsome : ∀ {c : Capture (Metered τ)} {status : Status}, c.status = some status →
      Stage held failed c →
      Stage (if (c.write chunk).2.isWithholding then held ++ chunk else held) failed
        (c.write chunk).2 := by
    intro c status hs hc
    cases hc with
    | idle hstatus => rw [hs] at hstatus; cases hstatus
    | holding hw hbuffer htaken hfailed =>
      have hw' : (c.write chunk).2.isWithholding = true := by rw [write_held hw]; exact hw
      rw [if_pos hw', write_held hw]
      exact .holding hw (by rw [hbuffer]) htaken hfailed
    | flowing hw _ hheld =>
      have hw' : (c.write chunk).2.isWithholding = false := by
        rw [write_flowing_eq hs hw]
        exact hw
      rw [hw', if_neg Bool.false_ne_true, write_flowing_eq hs hw, Metered.writeAll_eq]
      exact .flowing hw hs fun hfailed => (hheld hfailed).trans (List.prefix_append _ _)
  cases hs : c.status with
  | some status => exact hsome hs hc
  | none =>
    rw [write_none hs]
    have hok : (c.writeStatus .ok).status = some .ok := by rw [writeStatus_none hs]
    exact hsome hok (stage_writeStatus hc .ok)

/-- A release in which the sink takes less than is there leaves the stage where output is held
back all the same. -/
theorem stage_release (hc : Stage held failed c) :
    Stage held (failed || Op.release.failsRelease (Op.release.apply c).1) c.release.2 := by
  cases hc with
  | idle hstatus hbuffer htaken hheld hfailed =>
    have hw : c.isWithholding = false := by simp [isWithholding, hstatus]
    rw [Op.apply, release_flowing hw, hfailed]
    exact .idle hstatus hbuffer htaken hheld rfl
  | flowing hw hstatus hheld =>
    rw [Op.apply, release_flowing hw]
    exact .flowing hw hstatus fun hfailed => hheld (Bool.or_eq_false_iff.mp hfailed).1
  | holding hw hbuffer htaken hfailed =>
    obtain ⟨status, -, hs⟩ := status_of_isWithholding hw
    rw [Op.apply, release_held_eq hs hw]
    dsimp only
    split
    · rename_i hempty
      refine .flowing rfl hs fun _ => ?_
      rw [← hbuffer, List.isEmpty_iff.mp hempty]
      exact List.nil_prefix
    · cases hsent : Sink.writeAll .shortForward c.buffer (Sink.writeStatus status c.inner) with
      | mk result inner =>
        rw [forward_eq, hsent]
        refine .flowing rfl hs fun hok => ?_
        cases result with
        | error e => cases (Bool.or_eq_false_iff.mp hok).2
        | ok =>
          have htaken' : inner.taken = (Sink.writeStatus status c.inner).taken ++ c.buffer :=
            Metered.taken_of_writeAll hsent
          have hopened : (Sink.writeStatus status c.inner).taken = [] := htaken
          rw [htaken', hopened, hbuffer]
          exact List.prefix_rfl

theorem stage_modifyHeaders (hc : Stage held failed c) (f : Headers → Headers) :
    Stage held failed (Sink.modifyHeaders f c) := by
  cases hc with
  | idle hstatus hbuffer htaken hheld hfailed => exact .idle hstatus hbuffer htaken hheld hfailed
  | holding hw hbuffer htaken hfailed => exact .holding hw hbuffer htaken hfailed
  | flowing hw hstatus hheld => exact .flowing hw hstatus hheld

/-! ## Whole trials -/

theorem Op.failsRelease_of_ne {op : Op} (h : op ≠ .release) (answer : Except WriteError Bytes) :
    op.failsRelease answer = false := by
  cases op with
  | release => exact absurd rfl h
  | _ => rfl

theorem Trial.held_call {a : Trial τ} {op : Op} (h : op.chunk = []) :
    (a.call op).held = a.held := by
  simp [call, h]

theorem Trial.failed_call {a : Trial τ} {op : Op} (h : op ≠ .release) :
    (a.call op).failed = a.failed := by
  rw [call, Op.failsRelease_of_ne h, Bool.or_false]

theorem Trial.stage_call {a : Trial (Metered τ)} {op : Op}
    (ha : Stage a.held a.failed a.capture) (hop : op ≠ .takeBuffer) :
    Stage (a.call op).held (a.call op).failed (a.call op).capture := by
  cases op with
  | takeBuffer => exact absurd rfl hop
  | writeStatus status =>
    rw [held_call rfl, failed_call]
    · exact stage_writeStatus ha status
    · simp
  | write chunk =>
    rw [failed_call]
    · exact stage_write ha chunk
    · simp
  | modifyHeaders f =>
    rw [held_call rfl, failed_call]
    · exact stage_modifyHeaders ha f
    · simp
  | release =>
    rw [held_call rfl]
    exact stage_release ha

theorem Trial.stage_run {first : Capture (Metered τ)} {ops : List Op}
    (hfirst : Stage [] false first) (hops : .takeBuffer ∉ ops) :
    Stage (run first ops).held (run first ops).failed (run first ops).capture := by
  unfold run
  suffices ∀ a : Trial (Metered τ), Stage a.held a.failed a.capture →
      Stage (ops.foldl call a).held (ops.foldl call a).failed (ops.foldl call a).capture from
    this _ hfirst
  induction ops with
  | nil => exact fun a ha => ha
  | cons op ops ih =>
    intro a ha
    rw [List.mem_cons, not_or] at hops
    exact ih hops.2 _ (stage_call ha (Ne.symm hops.1))

omit [Sink τ] in
theorem stage_start (useStale : Bool) (triggers : List Status) (sink : τ) :
    Stage [] false (start (Metered.start sink) useStale triggers) :=
  .idle rfl rfl rfl rfl rfl

/-- **A release without an error has delivered what was held back, unless one has failed before**:
for every run of calls in front of any sink that does not take octets from the capture, whichever
calls fail in it. After a release that failed, output counts as released: every further release is
without an error and forwards nothing. -/
theorem delivered_of_release (useStale : Bool) (triggers : List Status) (sink : τ) {ops : List Op}
    (hops : .takeBuffer ∉ ops) :
    let a := Trial.run (start (Metered.start sink) useStale triggers) ops
    (a.failed = false → a.capture.release.1 = .ok () →
        a.held <+: a.capture.release.2.inner.taken) ∧
      (a.failed = true → a.capture.release = (.ok (), a.capture)) := by
  intro a
  have ha : Stage a.held a.failed a.capture :=
    Trial.stage_run (stage_start useStale triggers sink) hops
  constructor
  case left =>
    intro hfailed hok
    have hok' : Op.release.failsRelease (Op.release.apply a.capture).1 = false := by
      rw [Op.apply, hok]
      rfl
    have hreleased := stage_release ha
    rw [hfailed, hok'] at hreleased
    cases hreleased with
    | idle _ _ _ hheld => rw [hheld]; exact List.nil_prefix
    | holding hw => rw [isWithholding_release] at hw; cases hw
    | flowing _ _ hheld => exact hheld rfl
  case right =>
    intro hfailed
    cases ha with
    | idle _ _ _ _ hfailed' => rw [hfailed] at hfailed'; cases hfailed'
    | holding _ _ _ hfailed' => rw [hfailed] at hfailed'; cases hfailed'
    | flowing hw => exact release_flowing hw

/-- A failure was held back, and the sink refused its octets when it was released. -/
def refusedRelease : Trial (Metered Scripted) :=
  Trial.run (start (Metered.start (.empty [none])) true [.internalServerError])
    [.writeStatus .internalServerError, .write [1], .release]

/-- The next release is without an error although the sink has not taken the octet. -/
theorem undelivered_by_refused_release :
    refusedRelease.failed = true ∧ refusedRelease.held = [1] ∧
      refusedRelease.capture.release.1 = .ok () ∧
      refusedRelease.capture.release.2.inner.taken = [] ∧
      ¬ refusedRelease.held <+: refusedRelease.capture.release.2.inner.taken :=
  ⟨rfl, rfl, rfl, rfl, by decide⟩

/-- The first release into a sink that takes octets delivers the octet. -/
theorem delivered_of_single_release :
    let a := Trial.run (start (Metered.start (Scripted.empty [some 1])) true
      [.internalServerError]) [.writeStatus .internalServerError, .write [1]]
    Op.takeBuffer ∉ [Op.writeStatus .internalServerError, .write [1]] ∧ a.failed = false ∧
      a.capture.release.1 = .ok () ∧ a.held <+: a.capture.release.2.inner.taken := by
  intro a
  have hops : Op.takeBuffer ∉ [Op.writeStatus .internalServerError, .write [1]] := by simp
  obtain ⟨hdelivered, -⟩ := delivered_of_release true [.internalServerError]
    (Scripted.empty [some 1]) hops
  exact ⟨hops, rfl, rfl, hdelivered rfl rfl⟩

end Capture
end HttpCache
