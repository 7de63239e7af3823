import DisplayFile.Proofs.Member.Ranges
import DisplayFile.Proofs.Text.Ascii

/-!
# Members from texts and files

A member is assembled from lines, and neither the ends of the lines nor the bytes of a file count
for more than the lines that they hold.

**Line ends do not matter.** A text that is written with some lines, each with an end of its own
choice, is cut into these lines again. No other text is (`ofText_of_writes`).

**Bytes keep their text and their lines.** A file with the bytes of a text is read as the text. Any
other bytes are read as well, and what is malformed in them replaces no character of ASCII, so no
line feed. The lines of the member are those of the bytes, which are counted where the last format
ends (`readMember_of_bytes`).
-/

namespace DisplayFile

/-- The last format of a member ends where the member does. -/
theorem getLast?_formats_ofLines (texts : List String) :
    (Member.ofLines texts).formats.getLast?.map (fun f ↦ f.lines.stop) = some texts.length := by
  rw [← List.getLast?_map, map_stop_formats_ofLines, List.getLast?_concat]

/-- **Line ends do not matter.** The texts that are written with some lines are exactly those that
have them, and all of them are the same member. -/
theorem ofText_of_writes {ls : List String} (hls : ∀ line ∈ ls, Text.IsLine line) (text : String) :
    (Text.Writes ls text ↔ Text.lines text = ls) ∧
      (Text.Writes ls text → Member.ofText text = Member.ofLines ls) := by
  have hlines : Text.Writes ls text → Text.lines text = ls := fun h ↦ h.lines_eq hls
  refine ⟨⟨hlines, ?_⟩, fun h ↦ congrArg Member.ofLines (hlines h)⟩
  rintro rfl
  exact Text.writes_lines text

/-- Lines with ends of both kinds, two of them empty and one with a carriage return inside. The last
one is not ended. -/
theorem ofText_of_writes_mixed_ends :
    let ls := ["", "      * A\rB", "", "                R MENU"]
    let text := "\r\n      * A\rB\n\r\n                R MENU"
    (∀ line ∈ ls, Text.IsLine line) ∧ Text.Writes ls text ∧ Text.lines text = ls ∧
      Member.ofText text = Member.ofLines ls := by
  intro ls text
  have hls : ∀ line ∈ ls, Text.IsLine line := by
    simp only [ls, List.forall_mem_cons]
    exact ⟨⟨by decide, by decide⟩, ⟨by decide, by decide⟩, ⟨by decide, by decide⟩,
      ⟨by decide, by decide⟩, nofun⟩
  have hwrites : Text.Writes ls text :=
    .ended "" .returnFeed
      (.ended "      * A\rB" .feed (.ended "" .returnFeed (.unended (by decide))))
  obtain ⟨hiff, hmember⟩ := ofText_of_writes hls text
  exact ⟨hls, hwrites, hiff.1 hwrites, hmember hwrites⟩

/-- **Bytes keep their text and their lines.** A file with the bytes of a text is the member of the
text. Whatever its bytes are, a file that can be read is the member of a text with the same
characters of ASCII, and the last format ends at the number of lines that the bytes have. -/
theorem readMember_of_bytes {m : Type → Type} [Monad m] [LawfulMonad m] (files : Files m)
    (path : String) :
    (∀ text : String, files.read path = pure (.ok text.toUTF8) →
      readMember files path = pure (.ok (Member.ofText text))) ∧
      ∀ bytes : ByteArray, files.read path = pure (.ok bytes) →
        readMember files path = pure (.ok (Member.ofText (Text.Utf8.decodeLossy bytes))) ∧
          (Text.Utf8.decodeLossy bytes).toList.filter (fun c ↦ c.toNat < 0x80) =
            (bytes.data.toList.filter fun b ↦ b.toNat < 0x80).map (fun b ↦ Char.ofNat b.toNat) ∧
          (Member.ofText (Text.Utf8.decodeLossy bytes)).formats.getLast?.map
            (fun f ↦ f.lines.stop) = some (Text.byteLines bytes.data.toList).length := by
  constructor
  · intro text hread
    rw [readMember_of_eq_pure hread, Member.ofBytes, Text.Utf8.decodeLossy_toUTF8]
  · intro bytes hread
    refine ⟨readMember_of_eq_pure hread, ?_, ?_⟩
    · rw [Text.Utf8.decodeLossy, String.toList_ofList]
      exact Text.Utf8.ascii_written_items bytes.data.toList
    · rw [Member.ofText, getLast?_formats_ofLines, Text.length_lines_decodeLossy]

/-- Two files: one holds the bytes of a text, and in the other one each of two lines ends in a
sequence that its line feed breaks off. -/
theorem readMember_of_bytes_broken_off :
    let bytes : ByteArray := ⟨#[0x2A, 0xE2, 0x82, 0x0A, 0xF0, 0x0A]⟩
    let files := FileTree.files
      ⟨[(["GOOD.dspf"], some "Grüße\n".toUTF8), (["BAD.dspf"], some bytes)]⟩
    (files.read "GOOD.dspf" = pure (.ok "Grüße\n".toUTF8) ∧
        files.read "BAD.dspf" = pure (.ok bytes)) ∧
      readMember files "GOOD.dspf" = pure (.ok (Member.ofText "Grüße\n")) ∧
      readMember files "BAD.dspf" = pure (.ok (Member.ofText "*\uFFFD\n\uFFFD\n")) ∧
      (Member.ofText "*\uFFFD\n\uFFFD\n").formats.getLast?.map (fun f ↦ f.lines.stop) =
        some 2 := by
  intro bytes files
  have hgood : files.read "GOOD.dspf" = pure (.ok "Grüße\n".toUTF8) := rfl
  have hbad : files.read "BAD.dspf" = pure (.ok bytes) := rfl
  have htext : Text.Utf8.decodeLossy bytes = "*\uFFFD\n\uFFFD\n" := by decide +kernel
  have hlines : (Text.byteLines bytes.data.toList).length = 2 := by decide +kernel
  obtain ⟨hread, -, hstop⟩ := (readMember_of_bytes files "BAD.dspf").2 bytes hbad
  rw [htext] at hread hstop
  rw [hlines] at hstop
  exact ⟨⟨hgood, hbad⟩, (readMember_of_bytes files "GOOD.dspf").1 _ hgood, hread, hstop⟩

end DisplayFile
