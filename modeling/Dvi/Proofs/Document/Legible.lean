import Dvi.Document.Json
import Dvi.Document.Listing
import Dvi.Json.Printer
import Dvi.Proofs.Font.MetricsFiles
import Dvi.Proofs.Machine.Failures
import Dvi.Proofs.Machine.Truncation

/-!
# Texts that show documents

A text that shows documents can be taken neither for metrics nor for a stream, whatever the documents hold.

* `Legible`: texts with no zero at their front; `Legible.byte_ne_zero`: nor is there one among the bytes there.
  **`Metrics.ofBytes_toUTF8`**: so such a text holds no metrics;
* **`interpretPartial_toUTF8`**: nothing can be read from a text as a stream;
* **`Document.legible_listing`**, **`Document.legible_json`**: documents are shown legibly.
-/

namespace Dvi

/-! ## The bytes of texts -/

theorem ne_zero_of_mem_utf8EncodeChar {c : Char} (hc : c ≠ '\x00') {b : UInt8} (hb : b ∈ String.utf8EncodeChar c) :
    b ≠ 0 := by
  rintro rfl
  obtain ⟨hval, -⟩ | ⟨hle, -⟩ := byte_of_mem_utf8EncodeChar hb
  · exact hc (Char.ext (UInt32.toNat_inj.1 hval.symm))
  · exact absurd hle (by decide)

theorem preamble_not_mem_toUTF8 (s : String) : Opcode.preamble.toByte ∉ s.toUTF8.data.toList := by
  rw [bytes_toUTF8, List.mem_flatMap]
  rintro ⟨c, -, hb⟩
  have hbyte : Opcode.preamble.toByte.toNat = 247 := rfl
  obtain ⟨-, hlt⟩ | ⟨-, hlt⟩ := byte_of_mem_utf8EncodeChar hb <;> rw [hbyte] at hlt
  · omega
  · omega

/-! ## Texts that are neither metrics nor streams -/

/-- So many characters reach beyond the character range of a metrics file. -/
def legibleLength : Nat := 7

/-- No zero is among the first characters. -/
def Legible (cs : List Char) : Prop := '\x00' ∉ cs.take legibleLength

namespace Legible

variable {as bs : List Char}

theorem nil : Legible [] := nofun

theorem left (h : Legible (as ++ bs)) : Legible as := by
  intro hmem
  rw [Legible, List.take_append] at h
  exact h (List.mem_append_left _ hmem)

theorem append (has : '\x00' ∉ as) (hbs : Legible bs) : Legible (as ++ bs) := by
  rw [Legible, List.take_append, List.mem_append]
  rintro (hmem | hmem)
  · exact has (List.mem_of_mem_take hmem)
  · exact hbs ((List.take_subset_take_left bs (Nat.sub_le _ _)) hmem)

theorem of_length (has : '\x00' ∉ as) (hlength : legibleLength ≤ as.length) : Legible (as ++ bs) := by
  rw [Legible, List.take_append_of_le_length hlength]
  exact fun hmem => has (List.mem_of_mem_take hmem)

theorem getElem?_flatMap {cs : List Char} {i : Nat} (h : '\x00' ∉ cs.take (i + 1)) :
    (cs.flatMap String.utf8EncodeChar)[i]? ≠ some 0 := by
  induction cs generalizing i with
  | nil => simp
  | cons c cs ih =>
    rw [List.take_succ_cons, List.mem_cons, not_or] at h
    rw [List.flatMap_cons, List.getElem?_append]
    split
    · intro hzero
      exact ne_zero_of_mem_utf8EncodeChar (Ne.symm h.1) (List.mem_of_getElem? hzero) rfl
    · rename_i hi
      have hlength : 0 < (String.utf8EncodeChar c).length := by
        rw [String.length_utf8EncodeChar]
        exact c.utf8Size_pos
      refine ih fun hmem => h.2 (List.take_subset_take_left cs ?_ hmem)
      omega

theorem byte_ne_zero {s : String} (h : Legible s.toList) : s.toUTF8.data.toList[6]? ≠ some 0 := by
  rw [bytes_toUTF8]
  exact getElem?_flatMap h

end Legible

/-- There are no metrics where the last character is beyond all codes. -/
theorem Metrics.ofBytes_eq_error {data : ByteArray} (h : data.data.toList[6]? ≠ some 0) (name : String) :
    ∃ d, Metrics.ofBytes name data = .error d := by
  rcases hbytes : ofBytes name data with d | m
  · exact ⟨d, rfl⟩
  have hfile := isMetricsFile_of_parse (ofBytes_eq_ok_iff.1 hbytes)
  have hlast : numberAt data 6 2 ≤ 255 := hfile.sizes.last
  have hlength : 24 ≤ data.data.toList.length := hfile.front
  have hbytes : (data.data.toList.drop 6).take 2 = [data.data.toList[6], data.data.toList[7]] := by
    rw [List.drop_eq_getElem_cons (by omega), List.drop_eq_getElem_cons (by omega)]
    rfl
  have hne : data.data.toList[6].toNat ≠ 0 := fun hzero =>
    h (by rw [List.getElem?_eq_getElem (by omega)]; exact congrArg some (UInt8.toNat_inj.1 hzero))
  rw [numberAt, toList_extract, hbytes] at hlast
  simp only [bigEndian, List.foldl_cons, List.foldl_nil] at hlast
  omega

/-- **There are no metrics in a legible text.** -/
theorem Metrics.ofBytes_toUTF8 {s : String} (h : Legible s.toList) (name : String) :
    ∃ d, Metrics.ofBytes name s.toUTF8 = .error d :=
  ofBytes_eq_error h.byte_ne_zero name

/-- **A stream that does not begin with a preamble is given up at once.** -/
theorem interpretPartial_of_head? {σ : Type} [FontSource σ] {data : ByteArray}
    (h : data.data.toList.head? ≠ some Opcode.preamble.toByte) (source : σ) :
    (interpretPartial data source).document = {} ∧ ∃ e, (interpretPartial data source).result = .error e := by
  let i : Interpreter σ PageCollector := .start data source {}
  have hfails : ∃ e, i.machine.Fails e := by
    rcases hb : Read.u8 (Cursor.start data) with ⟨byte, c⟩ | ⟨s, c⟩
    · obtain ⟨bs, hpasses, htakes⟩ := Read.Local.takes hb
      obtain rfl := Read.takes_u8.1 htakes
      have hrest : data.data.toList = byte :: c.rest := by
        simpa [Cursor.rest, Cursor.start] using hpasses.rest
      have hopcode : Opcode.ofByte byte ≠ .preamble := fun ho => by
        rw [hrest, ← ho, Opcode.toByte_ofByte] at h
        exact h rfl
      refine ⟨.malformedHeader ⟨0, byte⟩, .refused hb ?_⟩
      change Phase.refusal _ .awaitPreamble (Opcode.ofByte byte) = _
      generalize Opcode.ofByte byte = o at hopcode
      cases o <;> first | rfl | exact absurd rfl hopcode
    · exact ⟨_, .noOpcode hb⟩
  obtain ⟨e, hfails⟩ := hfails
  obtain ⟨effect, hs⟩ := Machine.exists_step_of_fails rfl hfails
  have hrun : i.run = (.error e, { i with machine := effect.machine }) :=
    Interpreter.run_of_failure (Interpreter.step_of_failure hs)
  obtain ⟨-, -, c, site, -, hmachine⟩ := Machine.of_step_eq_error hs
  simp only [interpretPartial, Interpretation.document]
  rw [hrun, hmachine]
  exact ⟨rfl, e, rfl⟩

/-- **Nothing is read from a text as a stream.** -/
theorem interpretPartial_toUTF8 {σ : Type} [FontSource σ] (s : String) (source : σ) :
    (interpretPartial s.toUTF8 source).document = {} ∧ ∃ e, (interpretPartial s.toUTF8 source).result = .error e :=
  interpretPartial_of_head? (fun h => preamble_not_mem_toUTF8 s (List.mem_of_mem_head? h)) source

/-! ## What is shown -/

theorem zero_not_mem_toString (n : Nat) : '\x00' ∉ (toString n).toList := by
  intro h
  have hdigit : '\x00'.isDigit = true := by
    refine Nat.isDigit_of_mem_toDigits (b := 10) (n := n) (by decide) (by decide) ?_
    simpa [toString, Nat.repr] using h
  exact absurd hdigit (by decide)

/-- Pieces that are legible, whatever follows. -/
def Fronted (pieces : List String) : Prop := ∀ rest, Legible ((String.join pieces).toList ++ rest)

theorem fronted_append {front : List String} (hzero : '\x00' ∉ (String.join front).toList)
    (hlength : legibleLength ≤ (String.join front).length) (more : List String) : Fronted (front ++ more) := by
  intro rest
  rw [String.join_append, String.toList_append, List.append_assoc]
  exact Legible.of_length hzero (by rwa [String.length_toList])

theorem legible_flatten {lines : List (List String)} (h : ∀ l ∈ lines, Fronted l) {rest : List Char}
    (hrest : Legible rest) : Legible ((String.join lines.flatten).toList ++ rest) := by
  cases lines with
  | nil => simpa using hrest
  | cons l lines =>
    have hl := h l (.head _) ((String.join lines.flatten).toList ++ rest)
    simpa [List.append_assoc] using hl

theorem zero_not_mem_numberPieces (n : Int) : '\x00' ∉ (String.join (numberPieces n)).toList := by
  have hdigits := zero_not_mem_toString n.natAbs
  unfold numberPieces
  split <;> simpa using hdigits

theorem fronted_number {front back : String} {number : List String} (hfront : '\x00' ∉ front.toList)
    (hnumber : '\x00' ∉ (String.join number).toList) (hback : '\x00' ∉ back.toList)
    (hlength : legibleLength ≤ front.length + back.length) (more : List String) :
    Fronted ((front :: number ++ [back]) ++ more) := by
  have hjoin : String.join (front :: number ++ [back]) = front ++ String.join number ++ back := by
    simp [String.append_assoc]
  refine fronted_append ?_ ?_ more <;> rw [hjoin]
  · simp only [String.toList_append, List.mem_append, not_or]
    exact ⟨⟨hfront, hnumber⟩, hback⟩
  · simp only [String.length_append]
    omega

namespace Document

variable (d : Document)

theorem fronted_pageListing (p : Page) (view : PageView) : Fronted (p.listing view) := by
  have hlisting : ∃ more, p.listing view = ("  [" :: numberPieces p.number.toInt ++ ["] at "]) ++ more := by
    simp [Page.listing]
  obtain ⟨more, hlisting⟩ := hlisting
  rw [hlisting]
  exact fronted_number (by decide) (zero_not_mem_numberPieces _) (by decide) (by decide) more

theorem fronted_postambleLine (p : Postamble) : Fronted (postambleLine p) := by
  have hdigits : '\x00' ∉ (String.join [toString p.totalPages.toNat]).toList := by
    rw [String.join_cons, String.join_nil, String.append_empty]
    exact zero_not_mem_toString _
  exact fronted_number (by decide) hdigits (by decide) (by decide) _

/-- **Listings are legible.** -/
theorem legible_listing (view : PageView) {rest : List Char} (hrest : Legible rest) :
    Legible ((String.join (d.listing view)).toList ++ rest) := by
  have hlines : d.listing view = (d.preamble.toList.map preambleLine ++
      d.fonts.entries.map (fun (id, f) => d.fontLine id f) ++ d.pages.map (Page.listing · view) ++
      d.postamble.toList.map postambleLine).flatten := by
    simp only [listing, List.flatten_append, List.flatMap]
  rw [hlines]
  refine legible_flatten (fun l hl => ?_) hrest
  simp only [List.mem_append, List.mem_map] at hl
  obtain ((⟨p, -, rfl⟩ | ⟨f, -, rfl⟩) | ⟨p, -, rfl⟩) | ⟨p, -, rfl⟩ := hl
  · exact fronted_append (by decide : '\x00' ∉ (String.join ["  format "]).toList) (by decide) _
  · exact fronted_append (by decide : '\x00' ∉ (String.join ["  font "]).toList) (by decide) _
  · exact fronted_pageListing p view
  · exact fronted_postambleLine p

/-- **JSON is legible.** -/
theorem legible_json (rest : List Char) : Legible ((String.join d.toJson.pieces).toList ++ rest) := by
  have hpieces : ∃ pieces, d.toJson.pieces = ["\x7b", "\n", "  ", "\"", "preamble"] ++ pieces := ⟨_, rfl⟩
  obtain ⟨pieces, hpieces⟩ := hpieces
  rw [hpieces]
  exact fronted_append (by decide) (by decide) pieces rest

end Document

end Dvi
