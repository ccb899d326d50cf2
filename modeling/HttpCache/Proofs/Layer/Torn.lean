import Mathlib.Data.List.TakeWhile
import HttpCache.Proofs.Entry.Passing
import HttpCache.Proofs.Layer.Caching
import HttpCache.Store.Memory

/-!
# HttpCache.Proofs.Layer.Torn

A stored value that was torn is an error, and never an entry with less in it.

* `Torn` — the stored form of an entry with octets cut off its end, or with others behind it.
* `document_cut`, `document_extended` — neither is a whole value.
* `refused_of_torn` — the codec and every cache layer refuse what is torn.
-/

namespace HttpCache

/-- What is left of the stored form of an entry after an end of it was lost, or after something
that is not blank was written behind it. -/
inductive Torn (e : Entry) : Bytes → Prop where
  | cut {data rest : Bytes} (h : data ++ rest = e.encode) (hrest : rest ≠ []) : Torn e data
  | extended {tail : Bytes} (h : ∃ b ∈ tail, Json.isBlank b = false) : Torn e (e.encode ++ tail)

namespace Entry

theorem getLast?_encode (e : Entry) : e.encode.getLast? = some Ascii.rightBrace := by
  rw [encode, Json.object, List.getLast?_concat]

/-- Nothing can be read in front of a cut: the rest of the text would have to be left over behind
an entry that takes all of it. -/
theorem document_cut {e : Entry} {data rest : Bytes} (h : data ++ rest = e.encode)
    (hrest : rest ≠ []) : ∃ cause, Json.document read data = .error cause := by
  cases hread : read data with
  | error fault => exact ⟨_, by rw [Json.document, hread]⟩
  | ok r =>
    obtain ⟨e', t⟩ := r
    obtain ⟨blanks, hblanks, hwhole⟩ := e.read_encode
    rw [← h] at hwhole
    have hover := rest_of_read_append hread hwhole
    have hbrace : Ascii.rightBrace ∈ rest := by
      have hlast := e.getLast?_encode
      rw [← h, List.getLast?_append_of_ne_nil _ hrest] at hlast
      exact List.mem_of_getLast? hlast
    have hmem : Ascii.rightBrace ∈ blanks := hover ▸ List.mem_append_right t hbrace
    cases hblanks.isBlank_of_mem hmem

theorem document_extended (e : Entry) {tail : Bytes} (h : ∃ b ∈ tail, Json.isBlank b = false) :
    ∃ cause, Json.document read (e.encode ++ tail) = .error cause := by
  obtain ⟨b, hmem, hb⟩ := h
  cases hread : read (e.encode ++ tail) with
  | error fault => exact ⟨_, by rw [Json.document, hread]⟩
  | ok r =>
    obtain ⟨e', t⟩ := r
    obtain ⟨blanks, -, hwhole⟩ := e.read_encode
    have hover := rest_of_read_append hwhole hread
    cases ht : Json.skipBlanks t with
    | nil =>
      have hblank := List.dropWhile_eq_nil_iff.mp ht b (hover ▸ List.mem_append_right blanks hmem)
      rw [hb] at hblank
      cases hblank
    | cons c rest =>
      refine ⟨Json.Fault.locate ⟨.trailingCharacters, rest⟩ (e.encode ++ tail), ?_⟩
      simp only [Json.document, hread, ht]

theorem decode_torn {e : Entry} {data : Bytes} (h : Torn e data) :
    ∃ cause, decode data = .error (.malformed cause) := by
  have hdocument : ∃ cause, Json.document read data = .error cause := by
    cases h with
    | cut h hrest => exact document_cut h hrest
    | extended h => exact document_extended e h
  obtain ⟨cause, hcause⟩ := hdocument
  exact ⟨cause, by rw [decode, hcause]⟩

end Entry

namespace Caching

/-- **A torn value is never served.** Reading it is an error of its JSON, and a cache layer that
gets it from its backend, whatever the layers below it are, answers with that error and calls
nothing else. -/
theorem refused_of_torn {e : Entry} {data : Bytes} (h : Torn e data) :
    ∃ cause, Entry.decode data = .error (.malformed cause) ∧
      ∀ {σ : Type} (layer : Caching σ) (handler : Context → Act σ Response) (c : Context) (s : σ),
        layer.bypasses c.fromRequest = false → (layer.asked c s).value = .ok data →
        Exchanges layer handler c s
          (Problem.respond .internalServerError (EntryError.malformed cause).message)
          (layer.asked c s).state [.get (layer.keyOf c.request)] := by
  obtain ⟨cause, hcause⟩ := Entry.decode_torn h
  refine ⟨cause, hcause, fun layer handler c s hbypass hgot => ?_⟩
  have hasked := Act.Runs.self (layer.asked c) s
  rw [hgot] at hasked
  exact exchanges_corrupt hbypass hasked hcause

/-- An entry with an escape in a header and two digits at its end. -/
def escapedEntry : Entry := ⟨.ofList [("via", "a\\b")], [117, 112], 200, 12⟩

/-- Its stored form without the last digit and the brace. -/
def escapedCut : Bytes :=
  Text.utf8 ("\x7b\"header\":[[\"via\",\"a\\\\b\"]],\"body\":\"dXA=\"," ++
    "\"status_code\":200,\"expiration\":1")

theorem encode_escapedEntry : escapedCut ++ [50, 125] = escapedEntry.encode := by decide +kernel

def escapedCutMemory : Memory := ⟨⟨8, [("/items", ⟨escapedCut, none⟩)]⟩, .zero⟩

/-- A memory holds a value whose number was cut to a shorter one: a request is answered with an
error, and the memory is as it was. -/
theorem refused_of_lost_digit :
    Torn escapedEntry escapedCut ∧
      ∃ cause, Entry.decode escapedCut = .error (.malformed cause) ∧
        Exchanges (make ⟨fun _ => 5, Memory.elapse⟩ .memory .default)
          (fun _ => pure (.ofText .ok "two")) (.ofRequest (.ofTarget .get "/items"))
          escapedCutMemory
          (Problem.respond .internalServerError (EntryError.malformed cause).message)
          escapedCutMemory [.get "/items"] := by
  have htorn : Torn escapedEntry escapedCut := .cut encode_escapedEntry (by decide)
  have hbypass : (make ⟨fun _ => 5, Memory.elapse⟩ .memory .default).bypasses
      (Context.ofRequest (.ofTarget .get "/items")).fromRequest = false := by decide +kernel
  have hkey : (make ⟨fun _ => 5, Memory.elapse⟩ .memory .default).keyOf
      (Context.ofRequest (.ofTarget .get "/items")).request = "/items" := by decide +kernel
  have hasked : (make ⟨fun _ => 5, Memory.elapse⟩ .memory .default).asked
      (.ofRequest (.ofTarget .get "/items")) escapedCutMemory =
        ⟨.ok escapedCut, escapedCutMemory, []⟩ := by
    rw [asked, hkey]
    rfl
  obtain ⟨cause, hcause, hrefused⟩ := refused_of_torn htorn
  have hexchanges := hrefused (make ⟨fun _ => 5, Memory.elapse⟩ .memory .default)
    (fun _ => pure (.ofText .ok "two")) (.ofRequest (.ofTarget .get "/items")) escapedCutMemory
    hbypass (by rw [hasked])
  rw [hasked, hkey] at hexchanges
  exact ⟨htorn, cause, hcause, hexchanges⟩

end Caching
end HttpCache
