/-!
# Supply of names

The numbers of temporaries, the labels of blocks and the names of storage that one function uses,
none of them twice.
-/

namespace LlvmBackend

/-- What comes next, and which names of storage are taken. -/
structure Supply where
  nextTemp : Nat := 1
  nextLabel : Nat := 1
  used : List String := []

namespace Supply

/-- The next temporary. -/
def temp (supply : Supply) : Nat × Supply :=
  (supply.nextTemp, { supply with nextTemp := supply.nextTemp + 1 })

/-- The next label. -/
def label (supply : Supply) : String × Supply :=
  (s!"L{supply.nextLabel}", { supply with nextLabel := supply.nextLabel + 1 })

/-- A name with a number after it. -/
def numbered (base : String) (n : Nat) : String := s!"{base}.{n}"

/-- Takes a name. -/
def reserve (supply : Supply) (name : String) : Supply :=
  { supply with used := name :: supply.used }

/-- The name itself if it is free, else the name with the least number that makes it free. Among as
    many numbers as there are taken names, one does, for the name without number is taken too. -/
def freeName (supply : Supply) (base : String) : String :=
  if base ∈ supply.used then
    let free := (List.range' 1 supply.used.length).find? fun n => numbered base n ∉ supply.used
    numbered base (free.getD (supply.used.length + 1))
  else base

/-- Takes a free name. -/
def uniqueName (supply : Supply) (base : String) : String × Supply :=
  let name := supply.freeName base
  (name, supply.reserve name)

end Supply

end LlvmBackend
