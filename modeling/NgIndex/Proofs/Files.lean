import NgIndex.Files

/-!
# What stands at a path

The contents at a path are the bytes of the buffer that is open there, or else those of the file on
disk.  Whether there is anything at a path, and what text can be read there, depends on the contents
alone; which of the two holds them, and why nothing can be read where there is none, does not count.
-/

namespace NgIndex
namespace Files

/-- The bytes at a path, if there is a buffer or a file. -/
def content? (files : Files) (path : Path) : Option ByteArray :=
  match files.buffer? path with
  | some text => some text.toUTF8
  | none => (files.disk.bytes path).toOption

theorem isFile_eq_isSome_bytes (disk : Disk) (path : Path) :
    disk.isFile path = (disk.bytes path).toOption.isSome := by
  unfold Disk.isFile Disk.bytes
  cases disk.find path with
  | error error => rfl
  | ok entry =>
      cases entry with
      | file name bytes => rfl
      | folder name entries => rfl

theorem contains_eq_isSome_content? (files : Files) (path : Path) :
    files.contains path = (files.content? path).isSome := by
  unfold contains hasBuffer content?
  cases files.buffer? path with
  | some text => simp
  | none => simp [isFile_eq_isSome_bytes]

theorem fromUTF8?_toUTF8 (text : String) : String.fromUTF8? text.toUTF8 = some text := by
  unfold String.fromUTF8?
  rw [dif_pos (by simpa using text.isValidUTF8)]
  rfl

theorem toOption_read (files : Files) (path : Path) :
    (files.read path).toOption = (files.content? path).bind String.fromUTF8? := by
  unfold read content?
  cases files.buffer? path with
  | some text =>
      simp only [Option.bind_some, fromUTF8?_toUTF8]
      rfl
  | none =>
      unfold Disk.read
      cases files.disk.bytes path with
      | error error => rfl
      | ok bytes =>
          simp only [Except.toOption, Option.bind_some]
          cases String.fromUTF8? bytes with
          | some text => rfl
          | none => rfl

/-- Where the contents are the same, the same text is read, or none in both. -/
theorem read_eq_or_error {files other : Files} {path : Path}
    (h : other.content? path = files.content? path) :
    (∃ text, files.read path = .ok text ∧ other.read path = .ok text) ∨
      (∃ e e', files.read path = .error e ∧ other.read path = .error e') := by
  have hread : (other.read path).toOption = (files.read path).toOption := by
    rw [toOption_read, toOption_read, h]
  cases hmine : files.read path with
  | error e =>
      rw [hmine] at hread
      cases hother : other.read path with
      | error e' => exact .inr ⟨e, e', rfl, rfl⟩
      | ok text =>
          rw [hother] at hread
          cases hread
  | ok text =>
      rw [hmine] at hread
      cases hother : other.read path with
      | error e' =>
          rw [hother] at hread
          cases hread
      | ok text' =>
          rw [hother] at hread
          exact .inl ⟨text, rfl, by rw [Option.some.inj hread]⟩

theorem contains_of_read {files : Files} {path : Path} {text : String}
    (h : files.read path = .ok text) : files.contains path = true := by
  have hread := toOption_read files path
  rw [h] at hread
  rw [contains_eq_isSome_content?]
  cases hcontent : files.content? path with
  | none =>
      rw [hcontent] at hread
      cases hread
  | some bytes => rfl

theorem hasBuffer_iff {files : Files} {path : Path} :
    files.hasBuffer path = true ↔ path.key ∈ files.buffers.map Prod.fst := by
  unfold hasBuffer buffer?
  rw [Option.isSome_map, List.isSome_find?, List.any_eq_true, List.mem_map]
  simp only [beq_iff_eq]

/-- Opening a buffer changes what stands at its key, and nothing else. -/
theorem content?_openBuffer (files : Files) (path other : Path) (text : String) :
    (files.openBuffer path text).content? other =
      if other.key = path.key then some text.toUTF8 else files.content? other := by
  unfold content? buffer? openBuffer
  by_cases h : other.key = path.key
  · rw [if_pos h]
    simp [h]
  · rw [if_neg h, List.find?_cons_of_neg (by simpa using Ne.symm h), List.find?_filter]
    have hsame : (fun buffer : String × String =>
        decide ((buffer.1 != path.key) = true ∧ (buffer.1 == other.key) = true)) =
        fun buffer => buffer.1 == other.key := by
      funext buffer
      by_cases hbuffer : buffer.1 = other.key
      · simp [hbuffer, h]
      · simp [hbuffer]
    rw [hsame]

theorem key_eq_of_content?_openBuffer_ne {files : Files} {path other : Path} {text : String}
    (h : (files.openBuffer path text).content? other ≠ files.content? other) :
    other.key = path.key := by
  by_cases hkey : other.key = path.key
  · exact hkey
  · rw [content?_openBuffer, if_neg hkey] at h
    exact absurd rfl h

end Files
end NgIndex
