import Microlab.Mnemonic
import Microlab.Proofs.Text.Letter

/-!
# Names of mnemonics

A name is in capitals and belongs to one mnemonic only, so a text names at most one
mnemonic, in any letter case.
-/

namespace Microlab.Mnemonic

open Text

theorem mem_all (m : Mnemonic) : m ∈ all := by
  cases m <;> decide +kernel

theorem ofName?_name (m : Mnemonic) : ofName? m.name = some m := by
  have hall : ∀ m ∈ all, ofName? m.name = some m := by decide +kernel
  exact hall m (mem_all m)

theorem upper_name (m : Mnemonic) : upper m.name.toList = m.name.toList := by
  have hall : ∀ m ∈ all, upper m.name.toList = m.name.toList := by decide +kernel
  exact hall m (mem_all m)

theorem ofName?_congr {s t : String} (h : upper s.toList = upper t.toList) :
    ofName? s = ofName? t :=
  named?_congr _ h

theorem ofName?_eq_some_iff {s : String} {m : Mnemonic} :
    ofName? s = some m ↔ sameLetters m.name s = true := by
  constructor
  · intro h
    unfold ofName? named? at h
    obtain ⟨row, hrow, rfl⟩ := Option.map_eq_some_iff.mp h
    have hsame := List.find?_some hrow
    obtain ⟨m, -, rfl⟩ := List.mem_map.mp (List.mem_of_find?_eq_some hrow)
    exact hsame
  · intro h
    rw [← ofName?_congr (sameLetters_iff.mp h)]
    exact ofName?_name m

end Microlab.Mnemonic
