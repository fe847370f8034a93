import KmsCluster.Lib.BigEndian
import Mathlib.Tactic.Common

/-!
# Self-delimiting encodings

An encoding is self-delimiting on a set of values when, whatever follows, the code of a value shows
where it ends and which value it is. Such codes are distinct and none is a proper prefix of another.

## Main results

- `SelfDelimiting.of_length`: distinct codes of one length.
- `SelfDelimiting.terminated`: texts without a terminator, each followed by it.
- `SelfDelimiting.frame`: byte strings behind their length.
- `SelfDelimiting.append`, `SelfDelimiting.literal`: codes behind each other.
-/

namespace Encoding

variable {α β γ : Type*}

/-- The code of a value in `P` can be told from what follows it. -/
def SelfDelimiting (P : α → Prop) (enc : α → List γ) : Prop :=
  ∀ a b, P a → P b → ∀ r s, enc a ++ r = enc b ++ s → a = b ∧ r = s

namespace SelfDelimiting

variable {P : α → Prop} {Q : β → Prop} {enc : α → List γ} {enc' : β → List γ}

theorem eq_of_append_eq (h : SelfDelimiting P enc) {a b : α} (ha : P a) (hb : P b) {r s : List γ}
    (heq : enc a ++ r = enc b ++ s) : a = b := (h a b ha hb r s heq).1

theorem inj (h : SelfDelimiting P enc) {a b : α} (ha : P a) (hb : P b) (heq : enc a = enc b) :
    a = b :=
  h.eq_of_append_eq ha hb (r := []) (s := []) (congrArg (· ++ []) heq)

theorem eq_of_prefix (h : SelfDelimiting P enc) {a b : α} (ha : P a) (hb : P b)
    (hpre : enc a <+: enc b) : a = b := by
  obtain ⟨r, hr⟩ := hpre
  refine h.eq_of_append_eq ha hb (r := r) (s := []) ?_
  rw [hr, List.append_nil]

theorem of_length {n : ℕ} (hlen : ∀ a, P a → (enc a).length = n)
    (hinj : ∀ a b, P a → P b → enc a = enc b → a = b) : SelfDelimiting P enc := by
  intro a b ha hb r s heq
  obtain ⟨hcode, hrest⟩ := List.append_inj heq ((hlen a ha).trans (hlen b hb).symm)
  exact ⟨hinj a b ha hb hcode, hrest⟩

/-- Texts that do not contain the terminator, each followed by it. -/
theorem terminated (stop : γ) :
    SelfDelimiting (fun text : List γ => stop ∉ text) (fun text => text ++ [stop]) := by
  intro a
  induction a with
  | nil =>
    intro b _ hb r s heq
    cases b with
    | nil => exact ⟨rfl, (List.cons.inj heq).2⟩
    | cons y ys =>
      obtain ⟨hhead, -⟩ := List.cons.inj heq
      exact absurd (hhead ▸ List.mem_cons_self) hb
  | cons x xs ih =>
    intro b ha hb r s heq
    cases b with
    | nil =>
      obtain ⟨hhead, -⟩ := List.cons.inj heq
      exact absurd (hhead ▸ List.mem_cons_self) ha
    | cons y ys =>
      obtain ⟨rfl, htail⟩ := List.cons.inj heq
      obtain ⟨rfl, hrest⟩ := ih ys (List.not_mem_of_not_mem_cons ha)
        (List.not_mem_of_not_mem_cons hb) r s htail
      exact ⟨rfl, hrest⟩

/-- Two codes behind each other. -/
theorem append (h : SelfDelimiting P enc) (h' : SelfDelimiting Q enc') :
    SelfDelimiting (fun p : α × β => P p.1 ∧ Q p.2) (fun p => enc p.1 ++ enc' p.2) := by
  rintro ⟨a, b⟩ ⟨c, d⟩ hab hcd r s heq
  simp only [List.append_assoc] at heq
  obtain ⟨rfl, hrest⟩ := h a c hab.1 hcd.1 _ _ heq
  obtain ⟨rfl, hend⟩ := h' b d hab.2 hcd.2 _ _ hrest
  exact ⟨rfl, hend⟩

/-- A fixed text before each code. -/
theorem literal (h : SelfDelimiting P enc) (text : List γ) :
    SelfDelimiting P (fun a => text ++ enc a) := by
  intro a b ha hb r s heq
  simp only [List.append_assoc] at heq
  exact h a b ha hb r s (List.append_cancel_left heq)

end SelfDelimiting

/-- Numbers on a fixed width. -/
theorem selfDelimiting_beBytes (w : ℕ) :
    SelfDelimiting (fun n => n < 256 ^ w) (BigEndian.beBytes w) := by
  refine SelfDelimiting.of_length (fun n _ => BigEndian.length_beBytes w n) ?_
  intro a b ha hb heq
  rw [← BigEndian.ofBeBytes_beBytes_of_lt ha, heq, BigEndian.ofBeBytes_beBytes_of_lt hb]

/-- A byte string behind its length. -/
def frame (w : ℕ) (bytes : List UInt8) : List UInt8 := BigEndian.beBytes w bytes.length ++ bytes

theorem SelfDelimiting.frame (w : ℕ) :
    SelfDelimiting (fun bytes => bytes.length < 256 ^ w) (Encoding.frame w) := by
  intro a b ha hb r s heq
  simp only [Encoding.frame, List.append_assoc] at heq
  obtain ⟨hlen, hrest⟩ := selfDelimiting_beBytes w _ _ ha hb _ _ heq
  exact List.append_inj hrest hlen

end Encoding
