import LlvmBackend.Proofs.Build

/-! # Numbers of registers

Building code gives out the numbers of registers in their order, so no piece of code defines a number
twice (`Build.numbered`).
-/

namespace LlvmBackend

open Ir

namespace Code

/-- The numbered registers that code defines. -/
def temps : Code → List Nat
  | .instr _ i => i.number?.toList
  | .seq first second => first.temps ++ second.temps
  | .fork _ _ _ _ whenTrue whenFalse => whenTrue.temps ++ whenFalse.temps
  | .loop _ _ test _ turn => test.temps ++ turn.temps
  | .skip | .read _ _ _ | .slot _ _ | .jump _ _ | .ret _ => []

theorem temps_sides_perm (taken : Bool) (flag : Operand) (a b : BlockId) (first second : Code) :
    (sides taken flag a b first second).temps.Perm (first.temps ++ second.temps) := by
  cases taken with
  | true => exact .refl _
  | false => exact List.perm_append_comm

theorem temps_leading (code : Code) (ended : Bool) (source fin : BlockId) :
    (code.leading ended source fin).temps = code.temps := by
  cases ended with
  | true => rfl
  | false => exact List.append_nil _

end Code

/-- Different numbers from one number on up to another one. -/
structure Numbered (low high : Nat) (temps : List Nat) : Prop where
  le : low ≤ high
  nodup : temps.Nodup
  bounds : ∀ n ∈ temps, low ≤ n ∧ n < high

namespace Numbered

variable {low middle high : Nat} {first second temps : List Nat}

theorem nil (le : low ≤ high) : Numbered low high [] := ⟨le, List.nodup_nil, by simp⟩

theorem append (h₁ : Numbered low middle first) (h₂ : Numbered middle high second) :
    Numbered low high (first ++ second) where
  le := Nat.le_trans h₁.le h₂.le
  nodup := by
    apply List.nodup_append'.mpr ⟨h₁.nodup, h₂.nodup, _⟩
    intro n mem mem'
    have := h₁.bounds n mem
    have := h₂.bounds n mem'
    omega
  bounds := by
    intro n mem
    have := h₁.le
    have := h₂.le
    rcases List.mem_append.mp mem with mem | mem
    · have := h₁.bounds n mem
      omega
    · have := h₂.bounds n mem
      omega

theorem perm (h : Numbered low high first) (perm : second.Perm first) :
    Numbered low high second where
  le := h.le
  nodup := perm.nodup_iff.mpr h.nodup
  bounds := fun n mem => h.bounds n (perm.mem_iff.mp mem)

theorem put {site : Site} {i : Instr} (dest : i.dest = none ∨ i.dest = some (.temp site.nextTemp)) :
    Numbered site.nextTemp (site.put i).nextTemp i.number?.toList := by
  rcases dest with dest | dest
  · have number : i.number? = none := by simp [Instr.number?, dest]
    rw [number]
    exact nil (by simp [Site.put, number])
  · have number : i.number? = some site.nextTemp := by simp [Instr.number?, dest, Operand.temp?]
    rw [number]
    exact ⟨by simp [Site.put, number], by simp, by simp [Site.put, number]⟩

end Numbered

theorem Merge.numbered {a b : BlockId} {s t : Site} {code : Code} (merge : Merge a b s code t) :
    Numbered s.nextTemp t.nextTemp code.temps := by
  induction merge with
  | skip => exact .nil (Nat.le_refl _)
  | instr _ dest => exact .put (.inr dest)
  | seq _ _ ih₁ ih₂ => exact ih₁.append ih₂

/-- The registers of code that was built are those whose numbers were given out meanwhile. -/
theorem Build.numbered {exit : Option BlockId} {s t : Site} {code : Code}
    (build : Build exit s code t) : Numbered s.nextTemp t.nextTemp code.temps := by
  induction build with
  | skip | read | slot | ret => exact .nil (Nat.le_refl _)
  | instr _ dest => exact .put dest
  | seq _ _ _ ih₁ ih₂ => exact ih₁.append ih₂
  | @guard s flag i a b _ dest =>
      have put := @Numbered.put (s.enterTwo (.condBr flag s.size (s.size + 1)) a b) i (.inl dest)
      simpa [Code.temps] using put
  | join _ _ _ _ merge ih₁ ih₂ =>
      apply Numbered.append _ merge.numbered
      apply (ih₁.append ih₂).perm
      simpa [Code.temps] using Code.temps_sides_perm _ _ _ _ (.seq _ (.jump _ _)) (.seq _ (.jump _ _))
  | loop _ _ _ ih₁ ih₂ => exact ih₁.append ih₂
  | chain _ ih => exact ih
  | lastArm _ ih =>
      rw [Code.temps, Code.temps, List.append_nil]
      exact ih
  | arm _ _ ih₁ ih₂ => exact ih₁.append ih₂
  | leads _ _ ih =>
      rw [Code.temps, Code.temps, List.append_nil]
      exact ih
  | returns _ _ ih => exact ih

end LlvmBackend
