import HttpCache.Message.Request
import HttpCache.Proofs.Message.Verdict

/-!
# HttpCache.Proofs.Message.Head

A head is judged from left to right, each reader after the one before it.

* `leftToRight_read`: the reader of a whole head judges its octets from left to right.
* `Request.parse_replace`: a request is found as soon as its head is complete, and its body is
  everything after the head; `Request.parse_append`: further octets join the body.
* `Request.stands_parse`: what further octets can change about the verdict on a request.
-/

namespace HttpCache
namespace Head

open Ascii

/-! ## Line ends -/

/-- The line ends before a head, as a reader without a value. -/
def blankLines (s : Bytes) : Except RequestError (Unit × Bytes) := (skipLineEnds s).map ((), ·)

def lineEnd (fault : HeadFault) (s : Bytes) : Except RequestError (Unit × Bytes) :=
  (readLineEnd fault s).map ((), ·)

theorem leftToRight_lineEnd (fault : HeadFault) : LeftToRight (lineEnd fault) := by
  intro s
  unfold lineEnd
  fun_cases readLineEnd fault s with
  | case1 => exact .incomplete ⟨fault, rfl⟩
  | case2 => exact .incomplete ⟨fault, rfl⟩
  | case3 tail => exact .read [cr, lf] tail rfl fun more => by simp [readLineEnd, Except.map]
  | case4 c tail hc => exact .malformed fun more => by simp [readLineEnd, hc, Except.map]
  | case5 tail hb => exact .read [lf] tail rfl fun more => by simp [readLineEnd, hb, Except.map]
  | case6 b tail hb hl => exact .malformed fun more => by simp [readLineEnd, hb, hl, Except.map]

/-- Blank lines, and a reader that needs an octet after them. By the recursion over the lines. -/
theorem leftToRight_afterBlankLines {α : Type} {next : Bytes → Except RequestError (α × Bytes)}
    (hnext : LeftToRight next) (hnil : next [] = .error .incomplete) :
    LeftToRight fun s => andThen (blankLines s) fun _ => next := by
  intro s
  have hline : ∀ passed, (∀ t, skipLineEnds (passed ++ t) = skipLineEnds t) → ∀ t,
      andThen (blankLines (passed ++ t)) (fun _ => next) =
        andThen (blankLines t) fun _ => next := by
    intro passed hpass t
    rw [blankLines, hpass, blankLines]
  dsimp only [blankLines]
  fun_induction skipLineEnds s with
  | case1 =>
    have hopen := hnext []
    rw [hnil] at hopen
    cases hopen with
    | incomplete hopen => exact .incomplete hopen
  | case2 => exact .incomplete ⟨.newLine, rfl⟩
  | case3 tail ih => exact ih.prepend [cr, lf] (hline _ fun t => by simp [skipLineEnds])
  | case4 c tail hc => exact .malformed fun more => by simp [skipLineEnds, hc, Except.map, andThen]
  | case5 tail hb ih =>
    exact ih.prepend [lf] (hline _ fun t => by
      rw [List.cons_append, skipLineEnds.eq_def]
      simp [hb])
  | case6 b tail hb hl =>
    refine (hnext (b :: tail)).of_cons hnil [] fun t => ?_
    rw [List.nil_append, skipLineEnds.eq_def]
    simp [hb, hl, Except.map, andThen]

/-! ## The request line -/

/-- What follows a run: if the run is not empty, the mark. -/
def readMark (mark : UInt8) (fault : HeadFault) (run : Bytes) :
    Bytes → Except RequestError (Bytes × Bytes)
  | [] => .error .incomplete
  | b :: rest => if b = mark && !run.isEmpty then .ok (run, rest) else .error (.malformed fault)

/-- A non-empty run of octets of a class, and the mark after it. -/
def readRun (member : UInt8 → Bool) (mark : UInt8) (fault : HeadFault) (s : Bytes) :
    Except RequestError (Bytes × Bytes) :=
  readMark mark fault (s.takeWhile member) (s.dropWhile member)

theorem leftToRight_readRun {member : UInt8 → Bool} {mark : UInt8} (hstop : member 0 = false)
    (hmark : 0 ≠ mark) (fault : HeadFault) : LeftToRight (readRun member mark fault) := by
  refine .span hstop (fun run s => ?_) fun _ => rfl
  cases s with
  | nil => exact .incomplete ⟨fault, by simp [readMark, hmark]⟩
  | cons b tail =>
    simp only [readMark]
    split
    · rename_i hb
      exact .read [b] tail rfl fun more => by
        simp only [List.cons_append, List.nil_append, readMark, hb, if_true]
    · rename_i hb
      exact .malformed fun more => by
        simp only [List.cons_append, readMark, hb, Bool.false_eq_true, if_false]

theorem readWord_eq (member : UInt8 → Bool) : readWord member = readRun member space .token := by
  funext s
  simp only [readWord, readRun]
  cases s.dropWhile member <;> rfl

theorem readTarget_eq : readTarget = fun s =>
    andThen (readWord isTargetByte s) fun word rest =>
      (Text.ofUtf8? word).elim (.error (.malformed .token)) fun target => .ok (target, rest) := by
  funext s
  simp only [readTarget, andThen]
  cases readWord isTargetByte s with
  | error e => rfl
  | ok word =>
    dsimp only
    cases Text.ofUtf8? word.1 <;> rfl

theorem leftToRight_readTarget : LeftToRight readTarget := by
  rw [readTarget_eq, readWord_eq]
  refine (leftToRight_readRun rfl (by decide) _).andThen fun word => ?_
  cases Text.ofUtf8? word with
  | none => exact .fault _
  | some target => exact .pure target

/-- Octets that are no beginning of a version are none, however many there are. -/
theorem readVersion_of_not_stem {s : Bytes} (h : ¬s.take 7 <+: versionStem) :
    readVersion s = .error (.malformed .version) := by
  have hno : ∀ d, s.take 8 ≠ versionStem ++ [d] := by
    intro d hd
    have htake := congrArg (List.take 7) hd
    rw [List.take_take] at htake
    exact h ⟨[], by simpa [versionStem] using htake⟩
  rw [readVersion]
  split
  · rw [if_neg fun hp => h (List.isPrefixOf_iff_prefix.mp hp)]
  · rw [if_neg (hno _), if_neg (hno _)]

theorem readVersion_zero {n : Nat} (h : n < 8) :
    readVersion (versionStem.take n ++ [0]) = .error (.malformed .version) := by
  match n, h with
  | 0, _ | 1, _ | 2, _ | 3, _ | 4, _ | 5, _ | 6, _ | 7, _ => rfl

theorem leftToRight_readVersion : LeftToRight readVersion := by
  intro s
  by_cases hs : s.length < 8
  · by_cases hstem : s.take 7 <+: versionStem
    · rw [readVersion, if_pos hs, if_pos (List.isPrefixOf_iff_prefix.mpr hstem)]
      rw [List.take_of_length_le (by omega), List.prefix_iff_eq_take] at hstem
      refine .incomplete ⟨.version, ?_⟩
      rw [hstem]
      exact readVersion_zero hs
    · rw [readVersion_of_not_stem hstem]
      refine .malformed fun more => readVersion_of_not_stem fun hp => hstem ?_
      rw [List.take_append] at hp
      exact (List.prefix_append _ _).trans hp
  · obtain ⟨front, rest, rfl, hfront⟩ : ∃ front rest, s = front ++ rest ∧ front.length = 8 :=
      ⟨s.take 8, s.drop 8, (List.take_append_drop 8 s).symm, List.length_take_of_le (by omega)⟩
    have hall : ∀ t, readVersion (front ++ t) =
        if front = versionStem ++ [48] then .ok (.http10, t)
        else if front = versionStem ++ [49] then .ok (.http11, t)
        else .error (.malformed .version) := by
      intro t
      rw [readVersion, if_neg (by rw [List.length_append]; omega), List.take_left' hfront,
        List.drop_left' hfront]
    rw [hall]
    split
    · rename_i hv
      exact .read front rest rfl fun more => by rw [hall, if_pos hv]
    · rename_i hv
      split
      · rename_i hv'
        exact .read front rest rfl fun more => by rw [hall, if_neg hv, if_pos hv']
      · rename_i hv'
        exact .malformed fun more => by rw [List.append_assoc, hall, if_neg hv, if_neg hv']

theorem readRequestLine_eq : readRequestLine = fun s =>
    andThen (readWord isTokenByte s) fun method s =>
      andThen (readTarget s) fun target s => andThen (readVersion s) fun version s =>
      andThen (lineEnd .newLine s) fun _ rest =>
        .ok ((Utf8.lossy method, target, version), rest) := by
  funext s
  simp only [readRequestLine, lineEnd, andThen]
  cases readWord isTokenByte s with
  | error e => rfl
  | ok method =>
    dsimp only
    cases readTarget method.2 with
    | error e => rfl
    | ok target =>
      dsimp only
      cases readVersion target.2 with
      | error e => rfl
      | ok version =>
        dsimp only
        cases readLineEnd .newLine version.2 <;> rfl

theorem leftToRight_readRequestLine : LeftToRight readRequestLine := by
  rw [readRequestLine_eq, readWord_eq]
  exact (leftToRight_readRun rfl (by decide) _).andThen fun method =>
    leftToRight_readTarget.andThen fun target => leftToRight_readVersion.andThen fun version =>
    (leftToRight_lineEnd _).andThen fun _ => .pure _

/-! ## The header lines -/

/-- The end of the line after the octets of a value. -/
def readValueEnd (run s : Bytes) : Except RequestError (Bytes × Bytes) :=
  andThen (lineEnd .headerValue s) fun _ rest => .ok (trimEnd run, rest)

theorem leftToRight_readValueEnd (run : Bytes) : LeftToRight (readValueEnd run) :=
  (leftToRight_lineEnd .headerValue).andThen fun _ => .pure _

theorem readFieldValue_eq : readFieldValue = fun s =>
    readValueEnd ((s.dropWhile isBlank).takeWhile isFieldByte)
      ((s.dropWhile isBlank).dropWhile isFieldByte) := by
  funext s
  simp only [readFieldValue, readValueEnd, lineEnd, andThen]
  cases readLineEnd .headerValue ((s.dropWhile isBlank).dropWhile isFieldByte) <;> rfl

theorem leftToRight_readFieldValue : LeftToRight readFieldValue := by
  have hvalue : LeftToRight fun s =>
      readValueEnd (s.takeWhile isFieldByte) (s.dropWhile isFieldByte) :=
    .span rfl leftToRight_readValueEnd fun _ => rfl
  rw [readFieldValue_eq]
  exact .span rfl (fun _ => hvalue) fun _ => rfl

theorem readField_eq : readField = fun s =>
    andThen (readRun isTokenByte colon .headerName s) fun name s =>
      andThen (readFieldValue s) fun value rest => .ok ((Utf8.lossy name, value), rest) := by
  funext s
  simp only [readField, readRun, andThen]
  cases s.dropWhile isTokenByte with
  | nil => rfl
  | cons b rest =>
    dsimp only [readMark]
    split
    · dsimp only
      cases readFieldValue rest <;> rfl
    · rfl

theorem leftToRight_readField : LeftToRight readField := by
  rw [readField_eq]
  exact (leftToRight_readRun rfl (by decide) _).andThen fun name =>
    leftToRight_readFieldValue.andThen fun value => .pure _

/-- The empty line, or a header line and what `next` makes of the octets after it. -/
def readLines (next : String × Bytes → Bytes → Except RequestError (List (String × Bytes) × Bytes))
    (s : Bytes) : Except RequestError (List (String × Bytes) × Bytes) :=
  match s with
  | [] => .error .incomplete
  | b :: _ =>
    if b = cr || b = lf then andThen (lineEnd .newLine s) fun _ rest => .ok ([], rest)
    else andThen (readField s) next

theorem leftToRight_readLines
    {next : String × Bytes → Bytes → Except RequestError (List (String × Bytes) × Bytes)}
    (hnext : ∀ field, LeftToRight (next field)) : LeftToRight (readLines next) := by
  intro s
  cases s with
  | nil => exact .incomplete ⟨.headerName, rfl⟩
  | cons b tail =>
    rw [readLines]
    split
    · rename_i hb
      have hend : LeftToRight fun s =>
          andThen (lineEnd .newLine s) fun _ rest => .ok (([] : List (String × Bytes)), rest) :=
        (leftToRight_lineEnd .newLine).andThen fun _ => .pure []
      exact (hend (b :: tail)).of_cons rfl [] fun t => if_pos hb
    · rename_i hb
      have hline : LeftToRight fun s => andThen (readField s) next :=
        leftToRight_readField.andThen hnext
      exact (hline (b :: tail)).of_cons rfl [] fun t => if_neg hb

theorem readFields_zero :
    readFields 0 = readLines fun _ _ => .error (.malformed .tooManyHeaders) := by
  funext s
  rw [readFields.eq_def]
  simp only [readLines, lineEnd, andThen]
  cases s with
  | nil => rfl
  | cons b rest =>
    dsimp only
    split
    · cases readLineEnd .newLine (b :: rest) <;> rfl
    · cases readField (b :: rest) <;> rfl

theorem readFields_succ (room : Nat) : readFields (room + 1) = readLines fun field s =>
    andThen (readFields room s) fun fields rest => .ok (field :: fields, rest) := by
  funext s
  rw [readFields.eq_def]
  simp only [readLines, lineEnd, andThen]
  cases s with
  | nil => rfl
  | cons b rest =>
    dsimp only
    split
    · cases readLineEnd .newLine (b :: rest) <;> rfl
    · cases readField (b :: rest) with
      | error e => rfl
      | ok line =>
        dsimp only
        cases readFields room line.2 <;> rfl

/-- By induction on the number of lines that may still come. -/
theorem leftToRight_readFields (room : Nat) : LeftToRight (readFields room) := by
  induction room with
  | zero =>
    rw [readFields_zero]
    exact leftToRight_readLines fun field => .fault _
  | succ room ih =>
    rw [readFields_succ]
    exact leftToRight_readLines fun field => ih.andThen fun fields => .pure _

theorem read_eq : read = fun s => andThen (blankLines s) fun _ s =>
    andThen (readRequestLine s) fun line s => andThen (readFields maxFields s) fun fields rest =>
      .ok (⟨line.1, line.2.1, line.2.2, fields⟩, rest) := by
  funext s
  simp only [read, blankLines, andThen]
  cases skipLineEnds s with
  | error e => rfl
  | ok s =>
    dsimp only [Except.map]
    cases readRequestLine s with
    | error e => rfl
    | ok line =>
      dsimp only
      cases readFields maxFields line.2 <;> rfl

theorem leftToRight_read : LeftToRight read := by
  rw [read_eq]
  refine leftToRight_afterBlankLines ?_ rfl
  exact leftToRight_readRequestLine.andThen fun line =>
    (leftToRight_readFields _).andThen fun fields => .pure _

end Head

namespace Request

/-- A request is found as soon as its head is complete, and its body is everything after it. -/
theorem parse_replace {s : Bytes} {r : Request} {offset : Nat} (h : parse s = .ok (r, offset)) :
    ∃ head, head ≠ [] ∧ s = head ++ r.body ∧ offset = head.length ∧
      ∀ body, parse (head ++ body) = .ok ({ r with body }, head.length) := by
  have hverdict := Head.leftToRight_read s
  unfold parse at h
  split at h
  · cases h
  · rename_i found rest hr
    cases h
    rw [hr] at hverdict
    cases hverdict with
    | read head rest hs hmore =>
      refine ⟨head, ?_, hs, by simp [hs], fun body => ?_⟩
      · rintro rfl
        exact Nat.lt_irrefl _ (hs ▸ (Head.read_consumes hr).lt)
      · simp only [parse, hmore, List.length_append, Nat.add_sub_cancel]
        rfl

theorem parse_eq_error {s : Bytes} {e : RequestError} :
    parse s = .error e ↔ Head.read s = .error e := by
  unfold parse
  split
  · rename_i hr
    rw [hr]
    simp
  · rename_i hr
    rw [hr]
    simp

theorem parse_of_malformed {s : Bytes} {fault : HeadFault} (more : Bytes)
    (h : parse s = .error (.malformed fault)) :
    parse (s ++ more) = .error (.malformed fault) := by
  have hverdict := Head.leftToRight_read s
  rw [parse_eq_error] at h ⊢
  rw [h] at hverdict
  cases hverdict with
  | malformed hmore => exact hmore more

theorem parse_zero_of_incomplete {s : Bytes} (h : parse s = .error .incomplete) :
    ∃ fault, parse (s ++ [0]) = .error (.malformed fault) := by
  have hverdict := Head.leftToRight_read s
  rw [parse_eq_error] at h
  rw [h] at hverdict
  cases hverdict with
  | incomplete hopen =>
    obtain ⟨fault, hopen⟩ := hopen
    exact ⟨fault, parse_eq_error.mpr hopen⟩

/-- A head that is complete has all its parts. -/
theorem parse_ne_missingField (s : Bytes) (field : String) :
    parse s ≠ .error (.missingField field) := by
  intro h
  have hverdict := Head.leftToRight_read s
  rw [parse_eq_error] at h
  rw [h] at hverdict
  cases hverdict

theorem parse_append {s : Bytes} (more : Bytes) (h : parse s ≠ .error .incomplete) :
    parse (s ++ more) =
      (parse s).map fun found => ({ found.1 with body := found.1.body ++ more }, found.2) := by
  cases hs : parse s with
  | error e =>
    cases e with
    | incomplete => exact absurd hs h
    | malformed fault => exact parse_of_malformed more hs
    | missingField field => exact absurd hs (parse_ne_missingField s field)
  | ok found =>
    obtain ⟨head, -, hbody, hoffset, hall⟩ := parse_replace hs
    rw [hbody, List.append_assoc, hall, ← hoffset]
    rfl

/-- The verdict on octets, and what further ones do to it: they join the body of a request, whose
head stands among the octets at hand, and leave a fault as it is. Octets that are too few for
either do not stay so, whatever comes. -/
inductive Stands (s : Bytes) : Except RequestError (Request × Nat) → Prop where
  | request {r : Request} {offset : Nat} (hpos : 0 < offset) (hle : offset ≤ s.length)
      (hmore : ∀ more, parse (s ++ more) = .ok ({ r with body := r.body ++ more }, offset)) :
      Stands s (.ok (r, offset))
  | malformed {fault : HeadFault}
      (hmore : ∀ more, parse (s ++ more) = .error (.malformed fault)) :
      Stands s (.error (.malformed fault))
  | incomplete (hopen : ∃ more, parse (s ++ more) ≠ .error .incomplete) :
      Stands s (.error .incomplete)

/-- **Octets that are too few, and no others, can turn into something else.** A request that is
found is found with any octets behind, which join its body, and its body starts at the same place,
after at least one octet; a fault that is found stays the same fault; and no field is ever
missing. -/
theorem stands_parse (s : Bytes) : Stands s (parse s) := by
  cases hs : parse s with
  | error e =>
    cases e with
    | incomplete =>
      obtain ⟨fault, hfault⟩ := parse_zero_of_incomplete hs
      exact .incomplete ⟨[0], by rw [hfault]; simp⟩
    | malformed fault => exact .malformed fun more => parse_of_malformed more hs
    | missingField field => exact absurd hs (parse_ne_missingField s field)
  | ok found =>
    obtain ⟨hpos, hle⟩ := parse_offset hs
    refine .request hpos hle fun more => ?_
    rw [parse_append more (by rw [hs]; simp), hs]
    rfl

end Request
end HttpCache
