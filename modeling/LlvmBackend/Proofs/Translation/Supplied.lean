import LlvmBackend.Proofs.Code.Supplied
import LlvmBackend.Proofs.Scopes
import LlvmBackend.Proofs.Translation

/-! # Translated code is supplied

The code of a tree reads registers only where they are known, whatever way control takes. What an
expression is worth is known behind its code, what a name stands for is known everywhere.
-/

namespace LlvmBackend

open Ir
open Lowering (resultName success Connective)

/-- What stands for a value where it lives. -/
def Storage.operands : Storage → List Operand
  | .direct operand => [operand]
  | .addressed address => [address]
  | .cached address loaded => [address, loaded]

/-- All that a value is made of is known. -/
structure Value.Known (known : List Operand) (value : Value) : Prop where
  flag : value.binding.flag.Known known
  storage : ∀ operand ∈ value.storage.operands, operand.Known known

theorem Value.Known.mono {known more : List Operand} {value : Value} (h : value.Known known)
    (sub : known ⊆ more) : value.Known more where
  flag := h.flag.mono sub
  storage := fun operand mem => (h.storage operand mem).mono sub

theorem Value.Known.address {known : List Operand} {value : Value} (h : value.Known known)
    {address : Operand} (eq : value.address = some address) : address.Known known := by
  refine h.storage address ?_
  unfold Value.address Storage.address at eq
  split at eq <;> simp_all [Storage.operands]

/-- What names stand for is known. -/
def Names.Known (known : List Operand) (names : Names) : Prop :=
  ∀ name value, names.scopes.lookup name = some value → value.Known known

theorem Names.Known.mono {known more : List Operand} {names : Names} (h : names.Known known)
    (sub : known ⊆ more) : names.Known more :=
  fun name value found => (h name value found).mono sub

/-- Code is supplied, and something holds of what is known behind it. -/
def Gives (known : List Operand) (code : Code) (post : List Operand → Prop) : Prop :=
  ∃ after, Supplied known code after ∧ known ⊆ after ∧ post after

namespace Gives

variable {known : List Operand} {post post' : List Operand → Prop}

theorem skip (h : post known) : Gives known .skip post :=
  ⟨known, .skip (List.Subset.refl _), List.Subset.refl _, h⟩

theorem instr {role : Role} {i : Instr} (plain : i.incoming? = none)
    (reads : ∀ operand ∈ i.reads, operand.Known known) (h : post (i.dest.toList ++ known)) :
    Gives known (.instr role i) post :=
  ⟨_, .instr plain reads (List.Subset.refl _), List.subset_append_right _ _, h⟩

theorem seq {first second : Code} (h : Gives known first post)
    (goesOn : ∀ after, known ⊆ after → post after → Gives after second post') :
    Gives known (.seq first second) post' := by
  obtain ⟨middle, supplied, le, holds⟩ := h
  obtain ⟨after, supplied', le', holds'⟩ := goesOn middle le holds
  exact ⟨after, .seq supplied supplied', List.Subset.trans le le', holds'⟩

theorem mono {code : Code} (h : Gives known code post) (le : ∀ after, post after → post' after) :
    Gives known code post' := by
  obtain ⟨after, supplied, sub, holds⟩ := h
  exact ⟨after, supplied, sub, le after holds⟩

theorem supplied {code : Code} (h : Gives known code post) : Supplied known code known := by
  obtain ⟨_, supplied, le, _⟩ := h
  exact supplied.forget le

end Gives

namespace Translation

variable {types : Registry} {env : Surroundings} {known : List Operand} {v w : Value}

theorem known_constant {operand : Operand} (h : operand.isRegister = false) :
    operand.Known known := by
  intro isRegister
  rw [h] at isRegister
  cases isRegister

/-- A temporary that was just defined is known. -/
theorem known_temp {n : Nat} : (Operand.temp n).Known (Operand.temp n :: known) :=
  fun _ => List.mem_cons_self

theorem known_direct {type : TypeId} {operand : Operand} (h : operand.Known known) :
    (Value.direct type operand).Known known :=
  ⟨known_constant rfl, by simpa [Value.direct, Storage.operands] using h⟩

/-- What stands at a known address and belongs to nobody or to a consumer is known. -/
theorem known_addressed {type : TypeId} {address : Operand} {binding : Binding}
    (h : address.Known known) (flag : binding.flag.Known known) :
    Value.Known known ⟨type, .addressed address, binding⟩ :=
  ⟨flag, by simpa [Storage.operands] using h⟩

theorem Loads.gives (loads : Loads types v code operand w) (h : v.Known known) :
    Gives known code fun after => operand.Known after ∧ w.Known after := by
  cases loads with
  | direct => exact .skip ⟨h.storage _ (by simp [Storage.operands]), h⟩
  | cached => exact .skip ⟨h.storage _ (by simp [Storage.operands]), h⟩
  | @addressed type address binding n _ =>
      have there : address.Known known := h.storage _ (by simp [Storage.operands])
      refine .instr rfl (by simpa [Instr.reads] using there) ⟨known_temp, ?_⟩
      have sub : known ⊆ .temp n :: known := List.subset_cons_self _ _
      refine ⟨h.flag.mono sub, ?_⟩
      show ∀ operand ∈ (if binding.owns then Storage.cached address (.temp n)
        else .addressed address).operands, operand.Known (.temp n :: known)
      split
      · simpa [Storage.operands] using ⟨there.mono sub, known_temp⟩
      · simpa [Storage.operands] using there.mono sub

theorem Places.gives (places : Places types v code address w) (h : v.Known known) :
    Gives known code fun after => address.Known after ∧ w.Known after := by
  cases places with
  | addressed => exact .skip ⟨h.storage _ (by simp [Storage.operands]), h⟩
  | cached => exact .skip ⟨h.storage _ (by simp [Storage.operands]), h⟩
  | @direct type operand binding n _ =>
      have there : operand.Known known := h.storage _ (by simp [Storage.operands])
      have allocated : Gives known (.instr .plain (.alloca (.temp n) ⟨types.ir type⟩))
          fun after => (Operand.temp n).Known after :=
        .instr rfl (by simp [Instr.reads]) known_temp
      refine allocated.seq fun after le isKnown => .instr rfl ?_
        ⟨isKnown, known_addressed isKnown (h.flag.mono le)⟩
      simpa [Instr.reads] using ⟨there.mono le, isKnown⟩

theorem Passes.gives {operand : TypedOperand} (passes : Passes types v code operand w)
    (h : v.Known known) :
    Gives known code fun after => operand.operand.Known after ∧ w.Known after := by
  cases passes with
  | byValue _ loads => exact loads.gives h
  | byAddress _ places => exact places.gives h

theorem PassesAll.gives {vs ws : List Value} {operands : List TypedOperand}
    (passes : PassesAll types vs code operands ws) (h : ∀ v ∈ vs, v.Known known) :
    Gives known code fun after => (∀ operand ∈ operands, operand.operand.Known after) ∧
      ∀ w ∈ ws, w.Known after := by
  induction passes generalizing known with
  | nil => exact .skip (by simp)
  | cons first _ ih =>
      obtain ⟨here, others⟩ := List.forall_mem_cons.mp h
      refine (first.gives here).seq fun after le ⟨operand, value⟩ => ?_
      have rest := ih fun v mem => (others v mem).mono le
      obtain ⟨last, supplied, sub, operands, values⟩ := rest
      exact ⟨last, supplied, sub, List.forall_mem_cons.mpr ⟨operand.mono sub, operands⟩,
        List.forall_mem_cons.mpr ⟨value.mono sub, values⟩⟩

theorem teardownCall_gives {type : TypeId} {entry : MethodEntry} {address : Operand}
    (h : address.Known known) :
    Gives known (.instr .release (teardownCall types type entry address)) fun _ => True :=
  .instr rfl (by simpa [teardownCall, Instr.reads] using h) trivial

theorem Releases.gives (releases : Releases types v code) (h : v.Known known) :
    Gives known code fun _ => True := by
  cases releases with
  | nothing => exact .skip trivial
  | always eq => exact teardownCall_gives (h.address eq)
  | @guarded address entry flag owned fin eq _ binding =>
      have flag := h.flag
      rw [binding] at flag
      have torn : Supplied known (.instr .release (teardownCall types v.type entry address)) known :=
        (teardownCall_gives (h.address eq)).supplied
      exact ⟨known, .fork flag (.seq torn (.jump (List.Subset.refl _))) (.skip (List.Subset.refl _))
        (List.Subset.refl _), List.Subset.refl _, trivial⟩

theorem ReleasesAll.gives {vs : List Value} (releases : ReleasesAll types vs code)
    (h : ∀ v ∈ vs, v.Known known) : Gives known code fun _ => True := by
  induction releases generalizing known with
  | nil => exact .skip trivial
  | cons first _ ih =>
      obtain ⟨here, others⟩ := List.forall_mem_cons.mp h
      exact (first.gives here).seq fun after le _ => ih fun v mem => (others v mem).mono le

/-- Who owns a value that comes from two blocks is known behind them. -/
theorem Owners.merges {type : TypeId} {first second : Binding × BlockId} {binding : Binding}
    (owners : Owners types type first second code binding) {atFirst atSecond : List Operand}
    (h₁ : first.1.flag.Known atFirst) (h₂ : second.1.flag.Known atSecond) :
    ∃ made, MergesKnown first.2 second.2 atFirst atSecond code made ∧ binding.flag.Known made := by
  cases owners with
  | temporary => exact ⟨_, .skip, known_constant rfl⟩
  | stable => exact ⟨_, .skip, known_constant rfl⟩
  | flag =>
      refine ⟨_, .instr rfl ?_, known_temp⟩
      simpa using ⟨.inl h₁, .inr h₂⟩

theorem Joins.merges {type : TypeId} {first second : Operand × Binding × BlockId}
    (joins : Joins types type first second code v) {atFirst atSecond : List Operand}
    (h₁ : first.1.Known atFirst) (h₁' : first.2.1.flag.Known atFirst)
    (h₂ : second.1.Known atSecond) (h₂' : second.2.1.flag.Known atSecond) :
    ∃ made, MergesKnown first.2.2 second.2.2 atFirst atSecond code made ∧ v.Known made := by
  cases joins with
  | @intro owners binding n _ owned =>
      obtain ⟨made, merges, flag⟩ := owned.merges h₁' h₂'
      have there : (Operand.temp n).Known (made ++ [.temp n]) := fun _ => by simp
      refine ⟨_, .seq (.instr rfl ?_) merges,
        known_addressed there (flag.mono (List.subset_append_left _ _))⟩
      simpa using ⟨.inl h₁, .inr h₂⟩

/-! ## Calls -/

theorem Dispatches.gives {callee : Callee} {args : List Value} {result : Option Value}
    (dispatches : Dispatches env callee args code result) (h : ∀ v ∈ args, v.Known known) :
    Gives known code fun after => ∀ v ∈ result, v.Known after := by
  cases dispatches with
  | @void target passing operands args' releasing _ passes _ releases =>
      refine (passes.gives h).seq fun after le ⟨reads, values⟩ => ?_
      have called : Gives after (.instr .plain (.call none .void target.symbol operands))
          fun _ => True :=
        .instr rfl (by simpa [Instr.reads] using reads) trivial
      refine called.seq fun after' le' _ => ?_
      exact (releases.gives fun v mem => (values v mem).mono le').mono (by simp)
  | @result target passing operands args' releasing n _ passes _ releases =>
      refine (passes.gives h).seq fun after le ⟨reads, values⟩ => ?_
      have allocated : Gives after (.instr .plain (.alloca (.temp n) ⟨env.types.ir target.returns⟩))
          fun after => (Operand.temp n).Known after :=
        .instr rfl (by simp [Instr.reads]) known_temp
      refine allocated.seq fun after₁ le₁ isKnown => ?_
      have called : Gives after₁ (.instr .plain (.call none .void target.symbol
          (operands ++ [⟨.ptr ⟨env.types.ir target.returns⟩, .temp n⟩]))) fun _ => True := by
        refine .instr rfl ?_ trivial
        simp only [Instr.reads, List.map_append, List.mem_append, List.mem_map, List.map_cons,
          List.map_nil, List.mem_singleton]
        rintro operand (⟨typed, mem, rfl⟩ | rfl)
        · exact (reads typed mem).mono le₁
        · exact isKnown
      refine called.seq fun after₂ le₂ _ => ?_
      obtain ⟨last, supplied, sub, _⟩ :=
        releases.gives fun v mem => ((values v mem).mono le₁).mono le₂
      refine ⟨last, supplied, sub, ?_⟩
      rintro v ⟨⟩
      exact known_addressed (isKnown.mono (List.Subset.trans le₂ sub)) (known_constant rfl)

theorem Coerces.gives (coerces : Coerces env v code w) (h : v.Known known) :
    Gives known code fun after => w.Known after := by
  cases coerces with
  | already => exact .skip h
  | calls _ dispatches => exact (dispatches.gives (by simpa using h)).mono (by simp)

theorem Tests.gives {flag : Operand} (tests : Tests env v code flag) (h : v.Known known) :
    Gives known code fun after => flag.Known after := by
  cases tests with
  | intro coerces loads =>
      exact (coerces.gives h).seq fun after _ isKnown =>
        (loads.gives isKnown).mono fun _ h => h.1

theorem Negates.gives (negates : Negates env v code w) (h : v.Known known) :
    Gives known code fun after => w.Known after := by
  cases negates with
  | intro loads =>
      refine (loads.gives h).seq fun after _ ⟨flag, _⟩ => ?_
      refine .instr rfl ?_ (known_direct known_temp)
      simpa [Instr.reads] using ⟨flag, known_constant rfl, known_constant rfl⟩

theorem Operates.gives {op : BinaryOperator} {left right : Value}
    (operates : Operates env op left right code v) (h₁ : left.Known known)
    (h₂ : right.Known known) : Gives known code fun after => v.Known after := by
  have operands : ∀ v ∈ [left, right], v.Known known := by simpa using ⟨h₁, h₂⟩
  cases operates with
  | plain _ _ dispatches => exact (dispatches.gives operands).mono (by simp)
  | negated _ _ dispatches _ negates =>
      exact (dispatches.gives operands).seq fun after _ isKnown => negates.gives (isKnown _ rfl)

/-! ## Forms with several ways -/

theorem Value.Known.borrowed (h : v.Known known) : v.borrowed.Known known := by
  unfold Value.borrowed
  split
  · refine ⟨known_constant rfl, fun operand mem => h.storage operand ?_⟩
    unfold Storage.withoutCache at mem
    split at mem <;> simp_all [Storage.operands]
  · exact h

theorem Decides.gives {connective : Connective} {left right : Value} {flag : Operand}
    {atRight : Code} (decides : Decides env connective left right flag atRight code v)
    (h : left.Known known) (isKnown : flag.Known known)
    (atRight_gives : Gives known atRight fun after => right.Known after) :
    Gives known code fun after => v.Known after := by
  cases decides with
  | @alike placing rightAddress right' releasing placing' leftAddress left' rightEnd skip merging _
      rightStart join _ placesRight releases placesLeft ne joins =>
      have first : Gives known (.seq atRight (.seq placing releasing)) fun after =>
          rightAddress.Known after ∧ right.binding.flag.Known after :=
        atRight_gives.seq fun after le rightKnown => by
          obtain ⟨placed, supplied, le', address, _⟩ := placesRight.gives rightKnown
          obtain ⟨last, supplied', le'', _⟩ := releases.gives (h.mono (List.Subset.trans le le'))
          exact ⟨last, .seq supplied supplied', List.Subset.trans le' le'', address.mono le'',
            rightKnown.flag.mono (List.Subset.trans le' le'')⟩
      obtain ⟨atFirst, supplied₁, _, rightAddress, rightFlag⟩ := first
      obtain ⟨atSecond, supplied₂, le₂, leftAddress, _⟩ := placesLeft.gives h
      obtain ⟨made, merges, joined⟩ :=
        joins.merges leftAddress (h.flag.mono le₂) rightAddress rightFlag
      exact ⟨_, .join isKnown supplied₁ supplied₂ ne merges.symm (List.Subset.refl _),
        List.subset_append_right _ _, joined.mono (List.subset_append_left _ _)⟩
  | @flags testing flag' releasing rightEnd skip rightStart join n _ tests releases ne =>
      have first : Gives known (.seq atRight testing) fun after => flag'.Known after :=
        atRight_gives.seq fun after _ rightKnown => tests.gives rightKnown
      obtain ⟨atFirst, supplied₁, _, rightFlag⟩ := first
      have merges : MergesKnown rightEnd skip atFirst known
          (.instr .plain (.phi (.temp n) .i1 [(flag, skip), (flag', rightEnd)])) [.temp n] := by
        refine .instr rfl ?_
        simpa using ⟨.inr isKnown, .inl rightFlag⟩
      have sub : known ⊆ .temp n :: known := List.subset_cons_self _ _
      obtain ⟨last, supplied, sub', _⟩ := releases.gives (h.mono sub)
      refine ⟨last, .seq (.join isKnown supplied₁ ?_ ne merges (List.Subset.refl _)) supplied,
        List.Subset.trans sub sub', known_direct (known_temp.mono sub')⟩
      exact .skip (List.Subset.refl _)

theorem Connects.gives {connective : Connective} {left right : Value} {atLeft atRight : Code}
    (connects : Connects env connective left right atLeft atRight code v)
    (atLeft_gives : Gives known atLeft fun after => left.Known after)
    (atRight_gives : ∀ after, known ⊆ after → Gives after atRight fun after => right.Known after) :
    Gives known code fun after => v.Known after := by
  cases connects with
  | intro tests decides =>
      refine atLeft_gives.seq fun after le leftKnown => ?_
      refine (tests.gives (Value.Known.borrowed leftKnown)).seq fun after' le' flag => ?_
      exact decides.gives (leftKnown.mono le') flag (atRight_gives after' (List.Subset.trans le le'))

theorem Chooses.gives {test onTrue onFalse : Value} {atTest atTrue atFalse : Code}
    (chooses : Chooses env test onTrue onFalse atTest atTrue atFalse code v)
    (atTest_gives : Gives known atTest fun after => test.Known after)
    (atTrue_gives : ∀ after, known ⊆ after → Gives after atTrue fun after => onTrue.Known after)
    (atFalse_gives : ∀ after, known ⊆ after → Gives after atFalse fun after => onFalse.Known after) :
    Gives known code fun after => v.Known after := by
  cases chooses with
  | @intro testing flag placing trueAddress onTrue' placing' falseAddress onFalse' trueEnd falseEnd
      merging v trueStart falseStart fin _ tests placesTrue placesFalse ne joins =>
      have tested : Gives known (.seq atTest testing) fun after => flag.Known after :=
        atTest_gives.seq fun after _ testKnown => tests.gives testKnown
      refine tested.seq fun after le isKnown => ?_
      have first : Gives after (.seq atTrue placing) fun after =>
          trueAddress.Known after ∧ onTrue.binding.flag.Known after :=
        (atTrue_gives after le).seq fun after _ trueKnown => by
          obtain ⟨last, supplied, sub, address, _⟩ := placesTrue.gives trueKnown
          exact ⟨last, supplied, sub, address, trueKnown.flag.mono sub⟩
      have second : Gives after (.seq atFalse placing') fun after =>
          falseAddress.Known after ∧ onFalse.binding.flag.Known after :=
        (atFalse_gives after le).seq fun after _ falseKnown => by
          obtain ⟨last, supplied, sub, address, _⟩ := placesFalse.gives falseKnown
          exact ⟨last, supplied, sub, address, falseKnown.flag.mono sub⟩
      obtain ⟨atFirst, supplied₁, _, trueAddress, trueFlag⟩ := first
      obtain ⟨atSecond, supplied₂, _, falseAddress, falseFlag⟩ := second
      obtain ⟨made, merges, joined⟩ := joins.merges trueAddress trueFlag falseAddress falseFlag
      exact ⟨_, .join isKnown supplied₁ supplied₂ ne merges (List.Subset.refl _),
        List.subset_append_right _ _, joined.mono (List.subset_append_left _ _)⟩

theorem Indexes.gives {container position : Value} {atContainer atPosition : Code}
    (indexes : Indexes env container position atContainer atPosition code v)
    (atContainer_gives : Gives known atContainer fun after => container.Known after)
    (atPosition_gives : ∀ after, known ⊆ after →
      Gives after atPosition fun after => position.Known after) :
    Gives known code fun after => v.Known after := by
  cases indexes with
  | @intro element loading base container' loading' offset position' releasing n _ _ _ loads loads'
      releases =>
      refine atContainer_gives.seq fun after₁ le₁ containerKnown => ?_
      refine (atPosition_gives after₁ le₁).seq fun after₂ le₂ positionKnown => ?_
      refine (loads.gives (containerKnown.mono le₂)).seq fun after₃ le₃ ⟨baseKnown, _⟩ => ?_
      refine (loads'.gives (positionKnown.mono le₃)).seq fun after₄ le₄ ⟨offsetKnown, kept⟩ => ?_
      have element : Gives after₄ (.instr .plain (.elementPtr (.temp n) ⟨env.types.ir element⟩ base
          [⟨⟨env.types.ir position.type⟩, offset⟩])) fun after => (Operand.temp n).Known after := by
        refine .instr rfl ?_ known_temp
        simpa [Instr.reads] using ⟨baseKnown.mono le₄, offsetKnown⟩
      refine element.seq fun after₅ le₅ there => ?_
      obtain ⟨last, supplied, sub, _⟩ := releases.gives (kept.mono le₅)
      exact ⟨last, supplied, sub, known_addressed (there.mono sub) (known_constant rfl)⟩

/-! ## Expressions and statements -/

/-- What expressions are worth is known behind their code. -/
theorem Evaluates.gives {names : Names} {phrase : Phrase} {vs : List Value}
    (evaluates : Evaluates env names phrase vs code) (h : names.Known known) :
    Gives known code fun after => ∀ v ∈ vs, v.Known after := by
  induction evaluates generalizing known with
  | literal =>
      refine .skip (List.forall_mem_singleton.mpr ⟨known_constant rfl, ?_⟩)
      simpa [Value.constant, Storage.operands] using known_constant rfl
  | name found =>
      exact ⟨known, .read (List.Subset.refl _), List.Subset.refl _,
        List.forall_mem_singleton.mpr (h _ _ found)⟩
  | binary _ _ operates ih₁ ih₂ =>
      refine (ih₁ h).seq fun after le left => ?_
      refine (ih₂ (h.mono le)).seq fun after' le' right => ?_
      have value := operates.gives ((List.forall_mem_singleton.mp left).mono le')
        (List.forall_mem_singleton.mp right)
      exact value.mono fun _ => List.forall_mem_singleton.mpr
  | not _ coerces negates ih =>
      refine (ih h).seq fun after _ operand => ?_
      refine (coerces.gives (List.forall_mem_singleton.mp operand)).seq fun after' _ isKnown => ?_
      exact (negates.gives isKnown).mono fun _ => List.forall_mem_singleton.mpr
  | and _ _ connects ih₁ ih₂ | or _ _ connects ih₁ ih₂ =>
      refine (connects.gives ?_ ?_).mono fun _ => List.forall_mem_singleton.mpr
      · exact (ih₁ h).mono fun _ => List.forall_mem_singleton.mp
      · exact fun after le => (ih₂ (h.mono le)).mono fun _ => List.forall_mem_singleton.mp
  | ternary _ _ _ chooses ih₁ ih₂ ih₃ =>
      refine (chooses.gives ?_ ?_ ?_).mono fun _ => List.forall_mem_singleton.mpr
      · exact (ih₁ h).mono fun _ => List.forall_mem_singleton.mp
      · exact fun after le => (ih₂ (h.mono le)).mono fun _ => List.forall_mem_singleton.mp
      · exact fun after le => (ih₃ (h.mono le)).mono fun _ => List.forall_mem_singleton.mp
  | index _ _ indexes ih₁ ih₂ =>
      refine (indexes.gives ?_ ?_).mono fun _ => List.forall_mem_singleton.mpr
      · exact (ih₁ h).mono fun _ => List.forall_mem_singleton.mp
      · exact fun after le => (ih₂ (h.mono le)).mono fun _ => List.forall_mem_singleton.mp
  | call _ _ dispatches ih =>
      refine (ih h).seq fun after _ args => ?_
      exact (dispatches.gives args).mono (by simp)
  | nil => exact .skip (by simp)
  | cons _ _ ih₁ ih₂ =>
      refine (ih₁ h).seq fun after le first => ?_
      obtain ⟨last, supplied, sub, rest⟩ := ih₂ (h.mono le)
      exact ⟨last, supplied, sub, List.forall_mem_cons.mpr
        ⟨(List.forall_mem_singleton.mp first).mono sub, rest⟩⟩

/-- The slots that code asks for are known. -/
def SlotsKnown (known : List Operand) (code : Code) : Prop :=
  ∀ slot ∈ code.slots, ∀ operand ∈ slot.dest, operand ∈ known

theorem SlotsKnown.mono {more : List Operand} (h : SlotsKnown known code) (sub : known ⊆ more) :
    SlotsKnown more code :=
  fun slot mem operand dest => sub (h slot mem operand dest)

theorem SlotFor.supplied {names names' : Names} {name : String} {type : TypeId} {slot : Operand}
    (slotFor : SlotFor types names name type slot code names') (h : names.Known known)
    (slots : SlotsKnown known code) :
    Supplied known code known ∧ slot.Known known ∧ names'.Known known := by
  cases slotFor with
  | reused found =>
      refine ⟨.skip (List.Subset.refl _), ?_, h⟩
      simp only [Names.reusable?, Option.bind_eq_bind, Option.bind_eq_some_iff] at found
      obtain ⟨v, here, address, eq, _, _, same⟩ := found
      cases same
      exact (h name v (Scopes.lookup_of_lookupLocal here)).address eq
  | new =>
      exact ⟨.slot (List.Subset.refl _), fun _ => slots _ (List.mem_singleton_self _) _ rfl, h⟩

theorem known_define {names : Names} (h : names.Known known) (name : String)
    (isKnown : v.Known known) : (names.define name v).Known known := by
  intro asked value found
  rw [Names.define, Scopes.lookup_define] at found
  split at found
  · cases found
    exact isKnown
  · exact h asked value found

/-- Where the result goes is known if there is one. -/
def ResultKnown (env : Surroundings) (known : List Operand) : Prop :=
  ∀ type, env.outcome = .result type → type ≠ Registry.void → .named resultName ∈ known

theorem ret_supplied {value : Option TypedOperand}
    (constant : ∀ typed ∈ value, typed.operand.isRegister = false) :
    Supplied known (.ret value) known := by
  refine .ret (fun operand mem => ?_) (List.Subset.refl _)
  obtain ⟨typed, there, rfl⟩ := List.mem_map.mp mem
  exact known_constant (constant typed (Option.mem_toList.mp there))

theorem Leaves.supplied {names : Names} {e : Option Expr} (leaves : Leaves env names e code)
    (h : names.Known known) (result : ResultKnown env known) : Supplied known code known := by
  have constant : ∀ {value : Option TypedOperand}, env.outcome = .status ∧ value = some success ∨
      env.outcome = .result Registry.void ∧ value = none →
      ∀ typed ∈ value, typed.operand.isRegister = false := by
    rintro _ (⟨_, rfl⟩ | ⟨_, rfl⟩)
    · rintro _ ⟨⟩
      rfl
    · simp
  cases leaves with
  | bare outcome => exact ret_supplied (constant outcome)
  | dropped outcome evaluates =>
      exact .seq (evaluates.gives h).supplied (ret_supplied (constant outcome))
  | @result _ v code loading operand v' outcome notVoid evaluates loads =>
      obtain ⟨middle, supplied, le, value⟩ := evaluates.gives h
      obtain ⟨after, supplied', le', isKnown, _⟩ :=
        loads.gives (List.forall_mem_singleton.mp value)
      have there : (Operand.named resultName).Known after :=
        fun _ => le' (le (result v.type outcome notVoid))
      have leaves : Supplied after (.seq (.instr .result
          (.store ⟨⟨env.types.ir v.type⟩, operand⟩ (.named resultName))) (.ret none)) known := by
        refine .seq (.instr rfl ?_ ?_) (ret_supplied (by simp))
        · simpa [Instr.reads] using ⟨isKnown, there⟩
        · exact List.Subset.trans le le'
      exact .seq supplied (.seq supplied' leaves)

theorem slotsKnown_seq {first second : Code} :
    SlotsKnown known (.seq first second) ↔ SlotsKnown known first ∧ SlotsKnown known second := by
  simp [SlotsKnown, Code.slots, or_imp, forall_and]

theorem SlotsKnown.of_leading {ended : Bool} {source fin : BlockId}
    (h : SlotsKnown known (code.leading ended source fin)) : SlotsKnown known code := by
  cases ended with
  | true => exact h
  | false => exact (slotsKnown_seq.mp h).1

/-- The flag of a branch is known behind the code of its condition. -/
theorem tested_gives {names : Names} {test : Expr} {atTest testing : Code} {flag : Operand}
    (evaluates : Evaluates env names (.expr test) [v] atTest) (tests : Tests env v testing flag)
    (h : names.Known known) : Gives known (.seq atTest testing) fun after => flag.Known after :=
  (evaluates.gives h).seq fun _ _ value => tests.gives (List.forall_mem_singleton.mp value)

/-- The code of statements is supplied by what names stand for and by all slots. -/
theorem Lowers.supplied {work : Work} {names names' : Names} {ended : Bool}
    (lowers : Lowers env work names names' ended code) (h : names.Known known)
    (slots : SlotsKnown known code) (result : ResultKnown env known) :
    Supplied known code known ∧ names'.Known known := by
  induction lowers with
  | @assign names e v code loading operand v' target slot slotting names' evaluates loads slotFor =>
      have slots := (slotsKnown_seq.mp (slotsKnown_seq.mp (slotsKnown_seq.mp slots).2).2).1
      obtain ⟨after₁, supplied₁, le₁, value⟩ := evaluates.gives h
      obtain ⟨after₂, supplied₂, le₂, isKnown, _⟩ :=
        loads.gives (List.forall_mem_singleton.mp value)
      have both := List.Subset.trans le₁ le₂
      obtain ⟨supplied₃, there, _⟩ := slotFor.supplied (h.mono both) (slots.mono both)
      have stored : Supplied after₂ (.instr (.write target v.type)
          (.store ⟨⟨env.types.ir v.type⟩, operand⟩ slot)) known := by
        refine .instr rfl ?_ both
        simpa [Instr.reads] using ⟨isKnown, there⟩
      obtain ⟨_, isSlot, h'⟩ := slotFor.supplied h slots
      exact ⟨.seq supplied₁ (.seq supplied₂ (.seq supplied₃ stored)),
        known_define h' target (known_addressed isSlot (known_constant rfl))⟩
  | noArms => exact ⟨.seq (.skip (List.Subset.refl _)) (.jump (List.Subset.refl _)), h⟩
  | ifChain _ ih => exact ih h slots
  | whileLoop evaluates tests _ ih =>
      have turning := (slotsKnown_seq.mp slots).2
      have slots : SlotsKnown known _ := fun slot mem =>
        turning slot (List.mem_append_right _ mem)
      obtain ⟨middle, tested, le, flag⟩ := tested_gives evaluates tests h
      obtain ⟨supplied, h'⟩ := ih h slots.of_leading
      exact ⟨.seq (.jump (List.Subset.refl _))
        (.loop tested flag (supplied.leading.mono le) (List.Subset.refl _)), h'⟩
  | @forLoop names source v atSource entry element placing iterator v' target slot slotting names'
      stmts names'' ended turn releasing source' head body fin n turnEnd evaluates _ _ places slotFor
      _ _ releases ih =>
      obtain ⟨_, _, slots₁, slots₂⟩ : SlotsKnown known atSource ∧ SlotsKnown known placing ∧
          SlotsKnown known slotting ∧ SlotsKnown known (turn.leading ended turnEnd head) := by
        simp only [slotsKnown_seq] at slots
        refine ⟨slots.1, slots.2.1, slots.2.2.1, fun slot mem => slots.2.2.2.1.2 slot ?_⟩
        exact List.mem_append_right _ mem
      obtain ⟨after₁, supplied₁, le₁, value⟩ := evaluates.gives h
      obtain ⟨after₂, supplied₂, le₂, isKnown, kept⟩ :=
        places.gives (List.forall_mem_singleton.mp value)
      have both := List.Subset.trans le₁ le₂
      obtain ⟨supplied₃, there, _⟩ := slotFor.supplied (h.mono both) (slots₁.mono both)
      have tested : Gives after₂ (.instr (.write target element) (.call (some (.temp n)) .i1
          entry.symbol [⟨.ptr ⟨env.types.ir v.type⟩, iterator⟩,
            ⟨.ptr ⟨env.types.ir element⟩, slot⟩])) fun after => (Operand.temp n).Known after := by
        refine .instr rfl ?_ known_temp
        simpa [Instr.reads] using ⟨isKnown, there⟩
      obtain ⟨after₃, supplied₄, le₃, flag⟩ := tested
      obtain ⟨_, isSlot, h'⟩ := slotFor.supplied h slots₁
      obtain ⟨turning, h''⟩ :=
        ih (known_define h' target (known_addressed isSlot (known_constant rfl))) slots₂.of_leading
      have turns : Supplied after₃ (turn.leading ended turnEnd head) known :=
        turning.leading.mono (List.Subset.trans both le₃)
      obtain ⟨last, released, le₄, _⟩ := releases.gives kept
      exact ⟨.seq supplied₁ (.seq supplied₂ (.seq supplied₃ (.seq (.seq (.jump (List.Subset.refl _))
        (.loop supplied₄ flag turns (List.Subset.refl _)))
        (released.forget (List.Subset.trans both le₄))))), h''⟩
  | ret leaves => exact ⟨leaves.supplied h result, h⟩
  | effect evaluates => exact ⟨(evaluates.gives h).supplied, h⟩
  | nil => exact ⟨.skip (List.Subset.refl _), h⟩
  | ends _ ih => exact ih h slots
  | goesOn _ _ ih₁ ih₂ =>
      obtain ⟨slots₁, slots₂⟩ := slotsKnown_seq.mp slots
      obtain ⟨supplied₁, h₁⟩ := ih₁ h slots₁
      obtain ⟨supplied₂, h₂⟩ := ih₂ h₁ slots₂
      exact ⟨.seq supplied₁ supplied₂, h₂⟩
  | otherwise _ ih =>
      obtain ⟨supplied, h'⟩ := ih h slots.of_leading
      exact ⟨supplied.leading, h'⟩
  | lastArm evaluates tests _ ih =>
      have turning := (slotsKnown_seq.mp slots).2
      have slots : SlotsKnown known _ := fun slot mem => turning slot (List.mem_append_left _ mem)
      obtain ⟨middle, tested, le, flag⟩ := tested_gives evaluates tests h
      obtain ⟨supplied, h'⟩ := ih h slots.of_leading
      exact ⟨.seq tested (.fork flag (supplied.leading.mono le) (.skip (List.Subset.refl _)) le), h'⟩
  | arm evaluates tests _ _ ih₁ ih₂ =>
      have branching := (slotsKnown_seq.mp slots).2
      have slots₁ : SlotsKnown known _ := fun slot mem =>
        branching slot (List.mem_append_left _ mem)
      have slots₂ : SlotsKnown known _ := fun slot mem =>
        branching slot (List.mem_append_right _ mem)
      obtain ⟨middle, tested, le, flag⟩ := tested_gives evaluates tests h
      obtain ⟨supplied₁, h₁⟩ := ih₁ h slots₁.of_leading
      obtain ⟨supplied₂, h₂⟩ := ih₂ h₁ slots₂
      exact ⟨.seq tested (.fork flag (supplied₁.leading.mono le) (supplied₂.mono le) le), h₂⟩

end Translation

end LlvmBackend
