import KmsCluster.Seal

/-!
# Small text files

Model of `write_blob_file` (`src/seal.rs`) over the files of a node, and of what `read_blob_file` of
`Seal` finds in them. A call on files may fail: a failed write leaves the file that it was writing in
any state, a failed read or rename leaves the files as they are.

## Main results

- `writeBlobFile_path`: a file is replaced as a whole or left alone.
- `writeBlobFile_other`: apart from the temporary file, no other file is touched.
- `readBlobFile_utf8`: what is read of a text without white space.
-/

namespace KmsCluster.Seal

-- ════════════════════════════════════════════════════════════════════════
-- Texts without white space
-- ════════════════════════════════════════════════════════════════════════

/-- A text that trimming leaves alone and that is not blank. -/
structure Solid (s : String) : Prop where
  ne_nil : s.toList ≠ []
  isWhitespace_eq : ∀ c ∈ s.toList, isWhitespace c = false

theorem dropWhile_solid {chars : List Char} (hne : chars ≠ [])
    (hsolid : ∀ c ∈ chars, isWhitespace c = false) (after : List Char) :
    (chars ++ after).dropWhile isWhitespace = chars ++ after := by
  cases chars with
  | nil => exact absurd rfl hne
  | cons c cs =>
    rw [List.cons_append, List.dropWhile_cons_of_neg]
    simp [hsolid c List.mem_cons_self]

/-- White space around such a text is what trimming takes away. -/
theorem Solid.trim_padded {s : String} (h : Solid s) (before after : String)
    (hbefore : ∀ c ∈ before.toList, isWhitespace c = true)
    (hafter : ∀ c ∈ after.toList, isWhitespace c = true) : trim (before ++ s ++ after) = s := by
  have hreverse : ∀ c ∈ after.toList.reverse, isWhitespace c = true := by
    intro c hc
    exact hafter c (List.mem_reverse.mp hc)
  have hfront : (before.toList ++ (s.toList ++ after.toList)).dropWhile isWhitespace =
      s.toList ++ after.toList := by
    rw [List.dropWhile_append_of_pos hbefore]
    exact dropWhile_solid h.ne_nil h.isWhitespace_eq _
  have hback : (after.toList.reverse ++ (s.toList.reverse ++ [])).dropWhile isWhitespace =
      s.toList.reverse ++ [] := by
    rw [List.dropWhile_append_of_pos hreverse]
    refine dropWhile_solid (List.reverse_ne_nil_iff.mpr h.ne_nil) ?_ []
    intro c hc
    exact h.isWhitespace_eq c (List.mem_reverse.mp hc)
  rw [List.append_nil] at hback
  rw [trim, String.toList_append, String.toList_append, List.append_assoc, hfront,
    List.reverse_append, hback, List.reverse_reverse, String.ofList_toList]

theorem Solid.trim_eq {s : String} (h : Solid s) : trim s = s := by
  have hpadded := h.trim_padded "" "" nofun nofun
  rwa [String.empty_append, String.append_empty] at hpadded

theorem Solid.isEmpty_eq {s : String} (h : Solid s) : s.isEmpty = false := by
  rw [Bool.eq_false_iff]
  intro hempty
  rw [String.isEmpty_iff] at hempty
  exact h.ne_nil (hempty ▸ rfl)

theorem Solid.isBlank_eq {s : String} (h : Solid s) : isBlank s = false := by
  rw [isBlank, h.trim_eq]
  exact h.isEmpty_eq

-- ════════════════════════════════════════════════════════════════════════
-- Files
-- ════════════════════════════════════════════════════════════════════════

/-- The contents of the files, by path. -/
abbrev Files := String → Option Bytes

def Files.set (files : Files) (path : String) (content : Option Bytes) : Files :=
  Function.update files path content

@[simp] theorem Files.set_self (files : Files) (path : String) (content : Option Bytes) :
    files.set path content path = content := Function.update_self ..

theorem Files.set_of_ne (files : Files) {path path' : String} (content : Option Bytes)
    (h : path' ≠ path) : files.set path content path' = files path' := Function.update_of_ne h ..

/-- The text that bytes spell in UTF-8. -/
def textOf (bytes : Bytes) : Option String := String.fromUTF8? ⟨bytes.toArray⟩

theorem textOf_utf8 (s : String) : textOf (utf8 s) = some s := by
  have hbytes : (⟨(utf8 s).toArray⟩ : ByteArray) = s.toByteArray := by
    simp [utf8]
  rw [textOf, hbytes, String.fromUTF8?, dif_pos s.isValidUTF8]
  rfl

/-- `std::fs::read_to_string`; `failure` is the error of a read that fails. -/
def readToString (files : Files) (failure : Option String) (path : String) : FileRead :=
  match failure with
  | some e => .failed e
  | none =>
    match files path with
    | none => .notFound
    | some bytes =>
      match textOf bytes with
      | some s => .content s
      | none => .failed "stream did not contain valid UTF-8"

/-- How a write ends. A failed one leaves `left` of the file. -/
inductive WriteFate where
  | done
  | failed (left : Option Bytes) (error : String)

/-- `std::fs::write`. -/
def fsWrite (files : Files) (fate : WriteFate) (path content : String) :
    Files × Except String Unit :=
  match fate with
  | .done => (files.set path (some (utf8 content)), .ok ())
  | .failed left e => (files.set path left, .error e)

/-- `std::fs::rename`; `failure` is the error of a rename that fails. -/
def fsRename (files : Files) (failure : Option String) (source target : String) :
    Files × Except String Unit :=
  match failure with
  | none => ((files.set target (files source)).set source none, .ok ())
  | some e => (files, .error e)

/-- How the calls of one `write_blob_file` end. -/
structure BlobFate where
  write : WriteFate
  renameFailure : Option String

def tmpPath (path : String) : String := path ++ ".tmp"

/-- Persist a text to `path`, through the temporary file. -/
def writeBlobFile (files : Files) (fate : BlobFate) (path content : String) :
    Files × Except String Unit :=
  match fsWrite files fate.write (tmpPath path) content with
  | (files, .error e) => (files, .error ("seal write " ++ tmpPath path ++ ": " ++ e))
  | (files, .ok ()) =>
    match fsRename files fate.renameFailure (tmpPath path) path with
    | (files, .error e) => (files, .error ("seal rename -> " ++ path ++ ": " ++ e))
    | (files, .ok ()) => (files, .ok ())

theorem tmpPath_ne (path : String) : path ≠ tmpPath path := by
  intro h
  have hlength := congrArg String.length h
  rw [tmpPath, String.length_append] at hlength
  have htmp : ".tmp".length = 4 := by decide
  omega

theorem writeBlobFile_cases (files : Files) (fate : BlobFate) (path content : String) :
    ((writeBlobFile files fate path content).2 = .ok () ∧
      (writeBlobFile files fate path content).1 =
        (((files.set (tmpPath path) (some (utf8 content))).set path
          (some (utf8 content))).set (tmpPath path) none)) ∨
    ((∃ e, (writeBlobFile files fate path content).2 = .error e) ∧
      ∃ left, (writeBlobFile files fate path content).1 = files.set (tmpPath path) left) := by
  obtain ⟨write, renameFailure⟩ := fate
  cases write with
  | failed left e => exact .inr ⟨⟨_, rfl⟩, left, rfl⟩
  | done =>
    cases renameFailure with
    | some e => exact .inr ⟨⟨_, rfl⟩, some (utf8 content), rfl⟩
    | none =>
      refine .inl ⟨rfl, ?_⟩
      simp only [writeBlobFile, fsWrite, fsRename, Files.set_self]

/-- The file is replaced as a whole when the call succeeds, and left alone when it does not. -/
theorem writeBlobFile_path (files : Files) (fate : BlobFate) (path content : String) :
    (writeBlobFile files fate path content).1 path =
      match (writeBlobFile files fate path content).2 with
      | .ok () => some (utf8 content)
      | .error _ => files path := by
  rcases writeBlobFile_cases files fate path content with ⟨hok, hfiles⟩ | ⟨⟨e, herror⟩, left, hfiles⟩
  · rw [hfiles, hok, Files.set_of_ne _ _ (tmpPath_ne path), Files.set_self]
  · rw [hfiles, herror, Files.set_of_ne _ _ (tmpPath_ne path)]

theorem writeBlobFile_other {files : Files} {fate : BlobFate} {path content other : String}
    (hpath : other ≠ path) (htmp : other ≠ tmpPath path) :
    (writeBlobFile files fate path content).1 other = files other := by
  rcases writeBlobFile_cases files fate path content with ⟨-, hfiles⟩ | ⟨-, left, hfiles⟩
  · rw [hfiles, Files.set_of_ne _ _ htmp, Files.set_of_ne _ _ hpath, Files.set_of_ne _ _ htmp]
  · rw [hfiles, Files.set_of_ne _ _ htmp]

/-- A node with these files, and nothing set in its environment and configuration. -/
def onDisk (files : Files) (failure : Option String) : Sources :=
  ⟨none, none, none, none, readToString files failure⟩

theorem readBlobFile_failed (files : Files) (e path : String) :
    readBlobFile (onDisk files (some e)) path = .error ("seal read " ++ path ++ ": " ++ e) := rfl

theorem readBlobFile_utf8 {files : Files} {path s : String} (h : Solid s)
    (hfile : files path = some (utf8 s)) : readBlobFile (onDisk files none) path = .ok (some s) := by
  simp [readBlobFile, onDisk, readToString, hfile, textOf_utf8, h.isBlank_eq, h.trim_eq]

end KmsCluster.Seal
