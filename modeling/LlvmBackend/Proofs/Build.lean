import LlvmBackend.Proofs.Code
import LlvmBackend.Proofs.Site

/-! # Building code

How a structured piece of code comes about at a site: each rule is a way in which the lowering
creates, enters and leaves blocks.
-/

namespace LlvmBackend

open Ir Site

/-- A branch to one of two blocks, by whether the flag has a value. -/
def Terminator.sides (taken : Bool) (flag : Operand) (first second : BlockId) : Terminator :=
  if taken then .condBr flag first second else .condBr flag second first

/-- Merges at the start of a block that control comes to from two blocks. -/
inductive Merge (first second : BlockId) : Site → Code → Site → Prop where
  | skip : Merge first second s .skip s
  | instr :
      i.incoming? = some incoming →
      i.dest = some (.temp s.nextTemp) →
      (incoming.map Prod.snd).Perm [first, second] →
      Merge first second s (.instr .plain i) (s.put i)
  | seq :
      Merge first second s code t →
      Merge first second t code' u →
      Merge first second s (.seq code code') u

namespace Site

variable (site : Site)

/-- Two new blocks, of which the first is entered. -/
abbrev enterTwo (terminator : Terminator) (a b : String) : Site :=
  ((site.fresh a).fresh b).leave terminator site.size

/-- Three new blocks, of which the first is entered. -/
abbrev enterThree (terminator : Terminator) (a b c : String) : Site :=
  (((site.fresh a).fresh b).fresh c).leave terminator site.size

end Site

/-- Code is built from one site to another. With a block to leave to, the code is a side of a branch
    or the turn of a loop: it jumps there unless it returns. -/
inductive Build : Option BlockId → Site → Code → Site → Prop where
  | skip : Build none s .skip s
  | read : Build none s (.read name rebound value) s
  | slot : name ∉ s.used → Build none s (.slot name type) (s.slotted name type)
  | instr :
      i.incoming? = none →
      i.dest = none ∨ i.dest = some (.temp s.nextTemp) →
      Build none s (.instr role i) (s.put i)
  | ret : Build none s (.ret value) (s.close (.ret value))
  | seq :
      Build none s first t →
      t.Open →
      Build exit t second u →
      Build exit s (.seq first second) u
  /-- An instruction that is carried out only if a flag holds. -/
  | guard :
      i.incoming? = none →
      i.dest = none →
      Build none s
        (.fork .release flag s.size (s.size + 1)
          (.seq (.instr .release i) (.jump s.size (s.size + 1))) .skip)
        (((s.enterTwo (.condBr flag s.size (s.size + 1)) a b).put i).leave (.br (s.size + 1))
          (s.size + 1))
  /-- Two ways that meet again. -/
  | join :
      Build none (s.enterThree (.sides taken flag s.size (s.size + 1)) a b c) first t →
      t.Open →
      Build none (t.leave (.br (s.size + 2)) (s.size + 1)) second u →
      u.Open →
      Merge t.current u.current (u.leave (.br (s.size + 2)) (s.size + 2)) merges v →
      Build none s
        (.seq (.sides taken flag s.size (s.size + 1)
          (.seq first (.jump t.current (s.size + 2))) (.seq second (.jump u.current (s.size + 2))))
          merges) v
  | loop :
      Build none (s.enterThree (.br s.size) a b c) test t →
      t.Open →
      Build (some s.size) (t.leave (.condBr flag (s.size + 1) (s.size + 2)) (s.size + 1)) turn u →
      Build none s
        (.seq (.jump s.current s.size) (.loop (s.size + 1) (s.size + 2) test flag turn))
        (u.enter (s.size + 2))
  /-- A chain of conditions, whose end is created first. -/
  | chain : Build (some s.size) (s.fresh fin) code t → Build none s code (t.enter s.size)
  /-- The last condition of a chain leads behind the chain if it does not hold. -/
  | lastArm :
      Build (some fin) ((s.fresh a).leave (.condBr flag s.size fin) s.size) body t →
      Build (some fin) s (.fork .plain flag s.size fin body .skip) t
  | arm :
      Build (some fin) (s.enterTwo (.condBr flag s.size (s.size + 1)) a b) body t →
      Build (some fin) (t.enter (s.size + 1)) rest u →
      Build (some fin) s (.fork .plain flag s.size (s.size + 1) body rest) u
  | leads :
      Build none s body t →
      t.Open →
      Build (some fin) s (.seq body (.jump t.current fin)) (t.close (.br fin))
  | returns : Build none s body t → ¬ t.Open → Build (some fin) s body t

end LlvmBackend
