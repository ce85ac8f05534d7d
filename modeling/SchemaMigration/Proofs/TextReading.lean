import Mathlib.Data.List.TakeWhile
import Mathlib.Tactic.SplitIfs
import SchemaMigration.Text.Blank
import SchemaMigration.Text.Utf8
/-! # Reading a text

What the reader of UTF-8 and the trimming of a text keep.  A byte below `0x80` is a character
wherever it stands: a character of several bytes takes only bytes from `0x80` on, so such a byte
is either read as itself or shows a fault (`mem_of_decode_ok`). -/
namespace SchemaMigration.Text

/-- Trimming drops blanks only. -/
theorem mem_trim {c : Char} {cs : List Char} (h : c ∈ cs) (hc : isBlank c = false) :
    c ∈ trim cs := by
  have keeps {cs : List Char} (h : c ∈ cs) : c ∈ cs.dropWhile isBlank := by
    rw [← List.takeWhile_append_dropWhile (p := isBlank) (l := cs), List.mem_append] at h
    refine h.resolve_left fun ht => ?_
    rw [List.mem_takeWhile_imp ht] at hc
    exact Bool.noConfusion hc
  exact List.mem_reverse.mpr (keeps (List.mem_reverse.mpr (keeps h)))

namespace Utf8

/-- The reader waits for no byte below `0x80`. -/
def Reader.Sound (r : Reader) : Prop := ∀ p, r.begun = some p → 0x80 ≤ p.low

theorem lead_low {b : UInt8} {p : Begun} (h : lead b = .begun p) : 0x80 ≤ p.low := by
  simp only [lead] at h
  split_ifs at h <;> cases h <;> simp only [UInt8.le_refl, UInt8.reduceLE]

theorem follow_low {p q : Begun} {b : UInt8} (h : follow p b = .begun q) : 0x80 ≤ q.low := by
  simp only [follow] at h
  split_ifs at h
  split at h <;> cases h
  exact UInt8.le_refl _

theorem lead_ascii {b : UInt8} (h : b < 0x80) : lead b = .ascii (Char.ofNat b.toNat) := by
  have hb : b.toNat < 0x80 := UInt8.lt_iff_toNat_lt.mp h
  rw [lead, if_pos hb]

theorem follow_ascii {p : Begun} {b : UInt8} (hp : 0x80 ≤ p.low) (h : b < 0x80) :
    follow p b = .wrong := by
  rw [follow, if_neg]
  exact fun hb => absurd (UInt8.lt_of_lt_of_le h hp) (UInt8.not_lt.mpr hb.1)

/-- What one byte adds to the characters that were read. -/
theorem Reader.Sound.step {r r' : Reader} {b : UInt8} (hr : r.Sound) (h : r.step b = .ok r') :
    r'.Sound ∧ r.chars ⊆ r'.chars ∧ (b < 0x80 → Char.ofNat b.toNat ∈ r'.chars) := by
  cases hbegun : r.begun with
  | none =>
    cases hlead : lead b with
    | ascii c =>
      simp only [Reader.step, hbegun, hlead] at h
      cases h
      refine ⟨nofun, List.subset_cons_self _ _, fun hb => ?_⟩
      rw [lead_ascii hb] at hlead
      cases hlead
      exact List.mem_cons_self
    | begun p =>
      simp only [Reader.step, hbegun, hlead] at h
      cases h
      refine ⟨fun q hq => Option.some.inj hq ▸ lead_low hlead, fun _ => id, fun hb => ?_⟩
      rw [lead_ascii hb] at hlead
      cases hlead
    | wrong =>
      simp only [Reader.step, hbegun, hlead] at h
      cases h
  | some p =>
    -- inside a character such a byte is a fault, and then there is no next reader
    have hascii (hb : b < 0x80) := follow_ascii (hr p hbegun) hb
    cases hfollow : follow p b with
    | ended c =>
      simp only [Reader.step, hbegun, hfollow] at h
      cases h
      exact ⟨nofun, List.subset_cons_self _ _, fun hb => by rw [hascii hb] at hfollow; cases hfollow⟩
    | begun q =>
      simp only [Reader.step, hbegun, hfollow] at h
      cases h
      exact ⟨fun _ hq => Option.some.inj hq ▸ follow_low hfollow, fun _ => id,
        fun hb => by rw [hascii hb] at hfollow; cases hfollow⟩
    | wrong =>
      simp only [Reader.step, hbegun, hfollow] at h
      cases h

/-- What was read stays, and a byte below `0x80` among those that are left is read. -/
theorem Reader.Sound.run {r : Reader} {bs : List UInt8} {cs : List Char} (hr : r.Sound)
    (h : r.run bs = .ok cs) :
    r.chars ⊆ cs ∧ ∀ b ∈ bs, b < 0x80 → Char.ofNat b.toNat ∈ cs := by
  induction bs generalizing r with
  | nil =>
    rw [Reader.run] at h
    split at h <;> cases h
    exact ⟨fun _ hc => List.mem_reverse.mpr hc, nofun⟩
  | cons b bs ih =>
    rw [Reader.run] at h
    split at h
    · rename_i r' hstep
      obtain ⟨hr', hsub, hb⟩ := hr.step hstep
      obtain ⟨hsub', hbs⟩ := ih hr' h
      refine ⟨fun _ hc => hsub' (hsub hc), fun b' hb' hlt => ?_⟩
      rcases List.mem_cons.mp hb' with rfl | hmem
      · exact hsub' (hb hlt)
      · exact hbs b' hmem hlt
    · cases h

/-- A byte below `0x80` of a text is a character of it. -/
theorem mem_of_decode_ok {bs : List UInt8} {cs : List Char} (h : decode bs = .ok cs) {b : UInt8}
    (hb : b ∈ bs) (hlt : b < 0x80) : Char.ofNat b.toNat ∈ cs := by
  have hstart : Reader.Sound ⟨[], none, 0⟩ := nofun
  exact (hstart.run h).2 b hb hlt

end Utf8

end SchemaMigration.Text
