import Mathlib.Data.List.TakeDrop
import Mathlib.Logic.Function.Basic
import Mathlib.Order.MinMax

/-!
# Files behind names

A disk as the calls on files see it: a name points to an inode, and an inode holds the bytes. A
process that has a file open keeps its inode, whatever happens to the name. `create` empties a file
that is there, `writeAt` writes at an offset, `rename` makes a name point to the inode of another.

`Partial` says that a file, open as an inode, holds the first bytes of a content.

## Main results

- `read_create_of_ne`, `read_writeAt_of_ne`, `read_rename`: what the calls do to each file.
- `Partial.create`, `Partial.writeAt`: a file that is written from front to back.
-/

namespace Inodes

/-- Names and inodes. No two names share an inode, and no inode from `fresh` on is in use. -/
structure Disk (N A : Type*) where
  dir : N → Option ℕ
  data : ℕ → List A
  fresh : ℕ
  dir_inj : ∀ {n n' i}, dir n = some i → dir n' = some i → n = n'
  dir_lt : ∀ {n i}, dir n = some i → i < fresh

/-- The content after a write at an offset; a gap before the offset is filled with `zero`. -/
def overwrite {A : Type*} (zero : A) (content : List A) (offset : ℕ) (chunk : List A) : List A :=
  content.takeD offset zero ++ chunk ++ content.drop (offset + chunk.length)

theorem overwrite_length {A : Type*} (zero : A) (content chunk : List A) :
    overwrite zero content content.length chunk = content ++ chunk := by
  rw [overwrite, List.takeD_eq_take _ (le_refl _), List.take_length,
    List.drop_of_length_le (by omega), List.append_nil]

variable {N A : Type*}

namespace Disk

/-- The whole content of the file of this name. -/
def read (d : Disk N A) (name : N) : Option (List A) := (d.dir name).map d.data

/-- `write` at an offset of an open file. -/
def writeAt (d : Disk N A) (zero : A) (inode offset : ℕ) (chunk : List A) : Disk N A :=
  { d with data := Function.update d.data inode (overwrite zero (d.data inode) offset chunk) }

/-- A write into an open file is seen under its name alone. -/
theorem read_writeAt_of_ne {d : Disk N A} {zero : A} {other : N} {inode offset : ℕ}
    {chunk : List A} (h : d.dir other ≠ some inode) :
    (d.writeAt zero inode offset chunk).read other = d.read other := by
  cases hother : d.dir other with
  | none => simp [read, writeAt, hother]
  | some j =>
    have hne : j ≠ inode := by
      rintro rfl
      exact h hother
    simp [read, writeAt, hother, Function.update_of_ne hne]

/-- Another name does not point to the same inode. -/
theorem dir_ne_of_ne {d : Disk N A} {name other : N} {inode : ℕ} (hname : d.dir name = some inode)
    (h : other ≠ name) : d.dir other ≠ some inode := by
  intro hother
  exact h (d.dir_inj hother hname)

variable [DecidableEq N]

/-- The names after a new file. -/
def link (d : Disk N A) (name : N) : N → Option ℕ := Function.update d.dir name (some d.fresh)

theorem link_eq_some {d : Disk N A} {name n : N} {i : ℕ} (h : d.link name n = some i) :
    n = name ∧ i = d.fresh ∨ d.dir n = some i := by
  by_cases hn : n = name
  · subst hn
    rw [link, Function.update_self] at h
    exact .inl ⟨rfl, (Option.some.inj h).symm⟩
  · rw [link, Function.update_of_ne hn] at h
    exact .inr h

/-- `open` with `O_CREAT` and `O_TRUNC`, and the inode it opens. -/
def create (d : Disk N A) (name : N) : Disk N A × ℕ :=
  match d.dir name with
  | some i => ({ d with data := Function.update d.data i [] }, i)
  | none =>
    ({ dir := d.link name
       data := Function.update d.data d.fresh []
       fresh := d.fresh + 1
       dir_inj := by
         intro n n' i hn hn'
         rcases link_eq_some hn with ⟨rfl, rfl⟩ | hold
         · rcases link_eq_some hn' with ⟨rfl, -⟩ | hold'
           · rfl
           · exact absurd (d.dir_lt hold') (lt_irrefl _)
         · rcases link_eq_some hn' with ⟨-, rfl⟩ | hold'
           · exact absurd (d.dir_lt hold) (lt_irrefl _)
           · exact d.dir_inj hold hold'
       dir_lt := by
         intro n i hn
         rcases link_eq_some hn with ⟨-, rfl⟩ | hold
         · exact Nat.lt_succ_self _
         · exact Nat.lt_succ_of_lt (d.dir_lt hold) }, d.fresh)

/-- The names after a file got the name of another. -/
def relink (d : Disk N A) (source target : N) (n : N) : Option ℕ :=
  if n = target then d.dir source else if n = source then none else d.dir n

theorem relink_eq_some {d : Disk N A} {source target n : N} {i : ℕ}
    (h : d.relink source target n = some i) :
    n = target ∧ d.dir source = some i ∨ n ≠ target ∧ n ≠ source ∧ d.dir n = some i := by
  unfold relink at h
  split at h
  · next hn => exact .inl ⟨hn, h⟩
  · next hn =>
    split at h
    · cases h
    · next hn' => exact .inr ⟨hn, hn', h⟩

/-- `rename`; `none` is the error of a source that is not there. -/
def rename (d : Disk N A) (source target : N) : Option (Disk N A) :=
  if (d.dir source).isSome then
    some
      { d with
        dir := d.relink source target
        dir_inj := by
          intro n n' i hn hn'
          rcases relink_eq_some hn with ⟨rfl, hold⟩ | ⟨-, hne, hold⟩
          · rcases relink_eq_some hn' with ⟨rfl, -⟩ | ⟨-, hne', hold'⟩
            · rfl
            · exact absurd (d.dir_inj hold' hold) hne'
          · rcases relink_eq_some hn' with ⟨rfl, hold'⟩ | ⟨-, -, hold'⟩
            · exact absurd (d.dir_inj hold hold') hne
            · exact d.dir_inj hold hold'
        dir_lt := by
          intro n i hn
          rcases relink_eq_some hn with ⟨-, hold⟩ | ⟨-, -, hold⟩
          · exact d.dir_lt hold
          · exact d.dir_lt hold }
  else none

variable {d d' : Disk N A} {name other source target : N}

theorem dir_create_self (d : Disk N A) (name : N) :
    (d.create name).1.dir name = some (d.create name).2 := by
  unfold create
  split
  · next i hi => exact hi
  · exact Function.update_self ..

theorem data_create_self (d : Disk N A) (name : N) :
    (d.create name).1.data (d.create name).2 = [] := by
  unfold create
  split
  · exact Function.update_self ..
  · exact Function.update_self ..

/-- A file is empty when it was opened. -/
theorem read_create_self (d : Disk N A) (name : N) : (d.create name).1.read name = some [] := by
  rw [read, d.dir_create_self, Option.map_some, d.data_create_self]

theorem read_create_of_ne (h : other ≠ name) : (d.create name).1.read other = d.read other := by
  unfold create
  split
  · next i hi =>
    cases hother : d.dir other with
    | none => simp [read, hother]
    | some j =>
      have hne : j ≠ i := by
        rintro rfl
        exact h (d.dir_inj hother hi)
      simp [read, hother, Function.update_of_ne hne]
  · cases hother : d.dir other with
    | none => simp [read, link, Function.update_of_ne h, hother]
    | some j =>
      have hne : j ≠ d.fresh := ne_of_lt (d.dir_lt hother)
      simp [read, link, Function.update_of_ne h, hother, Function.update_of_ne hne]

theorem read_rename (h : d.rename source target = some d') (n : N) :
    d'.read n = if n = target then d.read source else if n = source then none else d.read n := by
  unfold rename at h
  split at h
  · cases h
    simp only [read, relink]
    split
    · rfl
    · split
      · rfl
      · rfl
  · cases h

theorem rename_isSome {content : List A} (h : d.read source = some content) :
    ∃ d', d.rename source target = some d' := by
  have hsource : (d.dir source).isSome := by
    rw [read, Option.map_eq_some_iff] at h
    obtain ⟨i, hi, -⟩ := h
    rw [hi]
    rfl
  exact ⟨_, if_pos hsource⟩

end Disk

-- ════════════════════════════════════════════════════════════════════════
-- Writing a file from front to back
-- ════════════════════════════════════════════════════════════════════════

/-- The file of this name is open as `inode`, and holds the first `n` bytes of `content`. -/
structure Partial (d : Disk N A) (name : N) (inode : ℕ) (content : List A) (n : ℕ) : Prop where
  dir : d.dir name = some inode
  data : d.data inode = content.take n
  le : n ≤ content.length

theorem Partial.create [DecidableEq N] (d : Disk N A) (name : N) (content : List A) :
    Partial (d.create name).1 name (d.create name).2 content 0 where
  dir := d.dir_create_self name
  data := by rw [d.data_create_self, List.take_zero]
  le := Nat.zero_le _

variable {d : Disk N A} {name : N} {inode n : ℕ} {content : List A}

/-- The next bytes of the content are written. -/
theorem Partial.writeAt (h : Partial d name inode content n) (zero : A) {chunk : List A}
    (hchunk : chunk <+: content.drop n) :
    Partial (d.writeAt zero inode n chunk) name inode content (n + chunk.length) where
  dir := h.dir
  data := by
    have hlength : (content.take n).length = n := by
      rw [List.length_take]
      exact min_eq_left h.le
    calc (d.writeAt zero inode n chunk).data inode
      _ = overwrite zero (content.take n) (content.take n).length chunk := by
        rw [Disk.writeAt, hlength]
        exact (Function.update_self ..).trans (by rw [h.data])
      _ = content.take n ++ chunk := overwrite_length ..
      _ = content.take (n + chunk.length) := by
        rw [List.take_add, ← List.prefix_iff_eq_take.mp hchunk]
  le := by
    have hle := h.le
    have hrest := hchunk.length_le
    rw [List.length_drop] at hrest
    omega

/-- The whole content was written. -/
theorem Partial.read_eq (h : Partial d name inode content content.length) :
    d.read name = some content := by
  rw [Disk.read, h.dir, Option.map_some, h.data, List.take_length]

end Inodes
