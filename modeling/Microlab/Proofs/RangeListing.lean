import Microlab.Command.Assemble
import Microlab.Command.Disassemble
import Microlab.Proofs.Disassembly
import Microlab.Proofs.Image
import Microlab.Proofs.Layout

/-!
# Listing a range of assembled code

Assembled code that is written to a file may be mapped anywhere, and any range between two
instruction boundaries of it may be listed. The listing has the instructions between the
boundaries and nothing else, at the addresses where they are mapped.
-/

namespace Microlab

open Text

/-! ## Lines at other addresses -/

namespace DisassemblyLine

/-- The line, so many bytes further on. -/
def moved (l : DisassemblyLine) (offset : Nat) : DisassemblyLine :=
  { l with address := offset + l.address }

/-- The line shows the instruction: it is known, it has its bytes and its mnemonic, or the
principal one of two, and what it says is assembled to these bytes. -/
structure Shows (arch : Arch) (e : Encoded) (l : DisassemblyLine) : Prop where
  isKnown : l.isKnown = true
  bytes : l.bytes = e.bytes
  mnemonic : l.mnemonic = arch.printedName e.source.instruction.mnemonic
  assembles : ∃ i, Instruction.parse? l.text = some i ∧ arch.encode i = .ok e.bytes

end DisassemblyLine

theorem disassembleAt_cons_of_some {arch : Arch} {b : Byte} {bytes : List Byte} {d : Decoded}
    (h : arch.decode? (b :: bytes) = some d) (address : Nat) :
    disassembleAt arch address (b :: bytes)
      = ⟨address, (b :: bytes).take d.length, .instruction d⟩
        :: disassembleAt arch (address + d.length) ((b :: bytes).drop d.length) := by
  rw [disassembleAt]
  split
  · next d' hd' =>
    obtain rfl := Option.some.inj (h.symm.trans hd')
    rfl
  · next hnone =>
    rw [h] at hnone
    cases hnone

theorem disassembleAt_add (arch : Arch) (offset address : Nat) (bytes : List Byte) :
    disassembleAt arch (offset + address) bytes
      = (disassembleAt arch address bytes).map (·.moved offset) := by
  fun_induction disassembleAt arch address bytes with
  | case1 address =>
      rw [disassembleAt]
      rfl
  | case2 address b rest d hd ih =>
      rw [disassembleAt_cons_of_some hd, List.map_cons, Nat.add_assoc, ih]
      rfl
  | case3 address b rest hnone ih =>
      rw [Disassembly.disassembleAt_cons_of_none hnone, List.map_cons, Nat.add_assoc, ih]
      rfl

/-- Every line starts in front of the end of the bytes. -/
theorem address_lt_of_mem_disassembleAt {arch : Arch} {address : Nat} {bytes : List Byte}
    {l : DisassemblyLine} (h : l ∈ disassembleAt arch address bytes) :
    l.address < address + bytes.length := by
  fun_induction disassembleAt arch address bytes with
  | case1 address => cases h
  | case2 address b rest d hd ih =>
      obtain ⟨-, -, -, -, -, -, hle, -⟩ := Arch.exists_code_of_decode? hd
      rcases List.mem_cons.mp h with rfl | h
      · simp
      · have hlt := ih h
        rw [List.length_drop] at hlt
        omega
  | case3 address b rest hnone ih =>
      rw [List.length_cons]
      rcases List.mem_cons.mp h with rfl | h
      · simp
      · have hlt := ih h
        omega

/-! ## Instructions side by side -/

/-- Instructions that lie side by side are recovered wherever their bytes are found. -/
theorem forall₂_shows {arch : Arch} {es : List Encoded} {start : Nat}
    (hencoded : ∀ e ∈ es, arch.encode e.source.instruction = .ok e.bytes)
    (hcapitals : ∀ e ∈ es, upper e.source.instruction.mnemonic.toList
      = e.source.instruction.mnemonic.toList)
    (hfirst : ∀ e ∈ es.head?, e.address = start) (hadjoins : es.IsChain Assembly.Adjoins)
    (address : Nat) :
    List.Forall₂ (fun e l => l.address + start = address + e.address ∧ l.Shows arch e) es
      (disassembleAt arch address (es.flatMap Encoded.bytes)) := by
  induction es generalizing start address with
  | nil =>
      show List.Forall₂ _ [] (disassembleAt arch address [])
      rw [disassembleAt]
      exact .nil
  | cons e es ih =>
      obtain rfl := hfirst e rfl
      obtain ⟨hnext, hrest⟩ := List.isChain_cons.mp hadjoins
      obtain ⟨hencode, hencoded⟩ := List.forall_mem_cons.mp hencoded
      obtain ⟨hcapital, hcapitals⟩ := List.forall_mem_cons.mp hcapitals
      obtain ⟨t, hmem, ht, hdec, hlen, hprinted, hname⟩ :=
        Arch.exists_decoded_of_encode hencode hcapital
      rw [List.flatMap_cons, disassembleAt_append (hdec _) hlen]
      constructor
      · refine ⟨rfl, rfl, rfl, hname, t.printed, ?_, hprinted⟩
        rw [Decoded.text_eq (Selection.operands_decoded_ne hmem ht)]
        exact Selection.parse?_render_decoded hmem ht
      · refine (ih hencoded hcapitals hnext hrest _).imp ?_
        rintro f l ⟨haddress, hshows⟩
        exact ⟨by omega, hshows⟩

namespace Assembly

variable {arch : Arch} {lines : List SourceLine} {a : Assembly} {i j : Nat}

/-- Where an instruction starts, or the code ends. -/
def boundary (a : Assembly) (i : Nat) : Nat :=
  match a.instructions[i]? with
  | some e => e.address
  | none => a.bytes.length

/-- The instructions from one index up to another. -/
def between (a : Assembly) (i j : Nat) : List Encoded := (a.instructions.take j).drop i

theorem take_eq_append_between (hij : i ≤ j) :
    a.instructions.take j = a.instructions.take i ++ a.between i j := by
  have happend := List.take_append_drop i (a.instructions.take j)
  rw [List.take_take, Nat.min_eq_left hij] at happend
  exact happend.symm

namespace LaysOut

variable (h : LaysOut arch 0 lines a)

include h

/-- A boundary counts the bytes in front of it. -/
theorem boundary_eq (i : Nat) :
    a.boundary i = ((a.instructions.take i).flatMap Encoded.bytes).length := by
  unfold boundary
  cases he : a.instructions[i]? with
  | none =>
      rw [List.take_of_length_le (List.getElem?_eq_none_iff.mp he)]
      rfl
  | some e =>
      obtain ⟨hlt, rfl⟩ := List.getElem?_eq_some_iff.mp he
      have hsplit : a.instructions =
          a.instructions.take i ++ a.instructions[i] :: a.instructions.drop (i + 1) := by
        rw [List.getElem_cons_drop, List.take_append_drop]
      exact (h.address_eq hsplit).trans (Nat.zero_add _)

/-- The bytes between two boundaries are those of the instructions between them. -/
theorem bytes_between (hij : i ≤ j) :
    (a.bytes.take (a.boundary j)).drop (a.boundary i)
      = (a.between i j).flatMap Encoded.bytes := by
  have hbytes : a.bytes = (a.instructions.take j).flatMap Encoded.bytes
      ++ (a.instructions.drop j).flatMap Encoded.bytes := by
    rw [← List.flatMap_append, List.take_append_drop]
    rfl
  rw [h.boundary_eq, h.boundary_eq, hbytes, List.take_left, take_eq_append_between hij,
    List.flatMap_append, List.drop_left]

theorem boundary_add_length (hij : i ≤ j) :
    a.boundary i + ((a.between i j).flatMap Encoded.bytes).length = a.boundary j := by
  rw [h.boundary_eq, h.boundary_eq, take_eq_append_between hij, List.flatMap_append,
    List.length_append]

theorem boundary_le_length (j : Nat) : a.boundary j ≤ a.bytes.length := by
  have htake := List.take_append_drop j a.instructions
  have hlength := congrArg (fun es : List Encoded => (es.flatMap Encoded.bytes).length) htake
  rw [List.flatMap_append, List.length_append, ← h.boundary_eq] at hlength
  exact hlength ▸ Nat.le_add_right _ _

/-- An instruction has bytes, so that no two boundaries are the same. -/
theorem boundary_lt (hij : i < j) (hj : j ≤ a.instructions.length)
    (hcapitals : ∀ l ∈ lines, upper l.instruction.mnemonic.toList = l.instruction.mnemonic.toList) :
    a.boundary i < a.boundary j := by
  have hi : i < a.instructions.length := Nat.lt_of_lt_of_le hij hj
  have hmem : a.instructions[i] ∈ a.instructions := List.getElem_mem hi
  obtain ⟨t, -, -, hdec, hlen, -, -⟩ := Arch.exists_decoded_of_encode (h.encoded _ hmem)
    (hcapitals _ (h.source_mem_of_mem_instructions hmem))
  have hpos := Arch.length_pos_of_decode? (hdec [])
  have hsplit : a.between i j = a.instructions[i] :: a.between (i + 1) j := by
    unfold between
    rw [List.drop_eq_getElem_cons (by rw [List.length_take]; omega), List.getElem_take]
  rw [← h.boundary_add_length (Nat.le_of_lt hij), hsplit, List.flatMap_cons, List.length_append]
  omega

/-- The instructions between two boundaries are recovered from the bytes between them,
wherever these are found. -/
theorem forall₂_shows_between
    (hcapitals : ∀ l ∈ lines, upper l.instruction.mnemonic.toList = l.instruction.mnemonic.toList)
    (address : Nat) :
    List.Forall₂ (fun e l => l.address + a.boundary i = address + e.address ∧ l.Shows arch e)
      (a.between i j) (disassembleAt arch address ((a.between i j).flatMap Encoded.bytes)) := by
  have hmem : ∀ e ∈ a.between i j, e ∈ a.instructions := by
    intro e he
    exact List.mem_of_mem_take (List.mem_of_mem_drop he)
  have hfirst : ∀ e ∈ (a.between i j).head?, e.address = a.boundary i := by
    intro e he
    have hget : a.instructions[i]? = some e := by
      rw [Option.mem_def, between, List.head?_drop, List.getElem?_take] at he
      split at he
      · exact he
      · cases he
    unfold boundary
    rw [hget]
  refine forall₂_shows ?_ ?_ hfirst ((h.adjoins.take j).drop i) address
  · intro e he
    exact h.encoded e (hmem e he)
  · intro e he
    exact hcapitals _ (h.source_mem_of_mem_instructions (hmem e he))

/-! ### Mapped bytes -/

variable {base : Address}

/-- Where the code ends below the top of the address space, boundaries are mapped at plain
sums. -/
theorem toNat_add_boundary (hspace : base.toNat + a.bytes.length < 2 ^ 32) (i : Nat) :
    (base + BitVec.ofNat 32 (a.boundary i)).toNat = base.toNat + a.boundary i := by
  have hle := h.boundary_le_length i
  rw [BitVec.toNat_add, BitVec.toNat_ofNat]
  omega

/-- The window between two boundaries of the whole code. -/
theorem window?_between (hspace : base.toNat + a.bytes.length < 2 ^ 32)
    (hlt : a.boundary i < a.boundary j) (hij : i ≤ j) :
    Image.window? ⟨base, a.bytes⟩ (base + BitVec.ofNat 32 (a.boundary i))
      (base + BitVec.ofNat 32 (a.boundary j)) = some ((a.between i j).flatMap Encoded.bytes) := by
  have hle := h.boundary_le_length j
  have hlast := h.toNat_add_boundary hspace j
  rw [← h.bytes_between hij]
  exact Image.window?_eq hspace (h.toNat_add_boundary hspace i) (by omega) (Nat.le_of_lt hlt)
    (by omega)

/-- The part between two boundaries is loaded alone. -/
theorem load_between (hle : a.boundary i ≤ a.boundary j) (hij : i ≤ j) :
    Image.load a.bytes base (a.boundary i) (some (a.boundary j - a.boundary i))
      = .ok ⟨base, (a.between i j).flatMap Encoded.bytes⟩ := by
  have hlength := h.boundary_le_length j
  rw [Image.load_part (by omega), ← h.bytes_between hij, List.drop_take]

end LaysOut

end Assembly

/-! ## The commands -/

/-- A source that assembles is written to the file byte by byte. -/
theorem Command.Assemble.perform_of_isOk {o : Command.Assemble.Options} {files : Command.Files}
    {source : String} (htext : files.text o.input = .ok source)
    (hok : (Microlab.assemble o.arch source).isOk = true) :
    Command.Assemble.perform o files =
      .ok { Command.Outcome.success
          (if o.listing then (Microlab.assemble o.arch source).listing else "") with
        file := some (o.output, (Microlab.assemble o.arch source).bytes) } := by
  unfold Command.Assemble.perform
  simp only [htext, Except.mapError, bind, Except.bind]
  exact if_pos hok

namespace Command.Disassemble

variable {arch : Arch} {r : RangeOptions} {files : Files} {file window : List Byte}
  {first last : Address} {image : Image}

/-- The range has the instructions, mapped at the base behind the skipped bytes, and
nothing else. Its lines are those of the instructions' bytes alone, moved to the first
address, and none of them is moved past the end of the address space. -/
structure RangeListing.Lists (arch : Arch) (base skipped : Nat) (es : List Encoded)
    (r : RangeListing) : Prop where
  shows : List.Forall₂
    (fun e l => l.address + skipped = base + e.address ∧ l.Shows arch e) es r.lines
  moved : r.lines =
    (Microlab.disassemble arch (es.flatMap Encoded.bytes)).map (·.moved r.first.toNat)
  fits : ∀ l ∈ Microlab.disassemble arch (es.flatMap Encoded.bytes),
    r.first.toNat + l.address < 2 ^ 32

theorem list_eq (hfile : files r.input = .ok file)
    (hload : Image.load file r.base r.skip r.length = .ok image)
    (hfirst : Address.parse r.first = .ok first) (hlast : Address.parse r.last = .ok last)
    (hwindow : image.window? first last = some window) :
    r.list arch files = .ok ⟨first, last, disassembleAt arch first.toNat window⟩ := by
  have horder : ¬ last < first := by
    intro hlt
    unfold Image.window? at hwindow
    rw [if_pos (Or.inl hlt)] at hwindow
    cases hwindow
  unfold RangeOptions.list readAddress
  simp only [hfile, hload, hfirst, hlast, hwindow, if_neg horder, Except.mapError, bind,
    Except.bind]
  rfl

theorem lists_of_shows {base skipped : Nat} {es : List Encoded} {address : Nat}
    (haddress : first.toNat = address)
    (hshows : List.Forall₂ (fun e l => l.address + skipped = base + e.address ∧ l.Shows arch e)
      es (disassembleAt arch address (es.flatMap Encoded.bytes)))
    (hspace : address + (es.flatMap Encoded.bytes).length < 2 ^ 32) :
    (⟨first, last, disassembleAt arch first.toNat (es.flatMap Encoded.bytes)⟩
      : RangeListing).Lists arch base skipped es := by
  subst haddress
  refine ⟨hshows, disassembleAt_add arch first.toNat 0 _, ?_⟩
  intro l hl
  have hlt := address_lt_of_mem_disassembleAt hl
  show first.toNat + l.address < _
  omega

end Command.Disassemble

open Command in
/-- **What is assembled to a file is listed by ranges.** A source that assembles is written
to the file byte by byte. If the file is mapped where it ends below the top of the address
space, the range between two instruction boundaries lists the instructions between them and
nothing else, each with its own bytes, at its address behind the base. If no more of the file
is mapped than lies between the boundaries, any range that covers this from the base on
lists the same instructions, nearer to the base by what is skipped. -/
theorem range_lists_instructions (arch : Arch) (source : String) (base : Address) {i j : Nat}
    (hok : (assemble arch source).isOk = true)
    (hspace : base.toNat + (assemble arch source).bytes.length < 2 ^ 32)
    (hij : i < j) (hj : j ≤ (assemble arch source).instructions.length) :
    let a := assemble arch source
    let start := a.boundary i
    let stop := a.boundary j
    (∀ (input output : String) (listing : Bool) (files : Files), files.text input = .ok source →
      Assemble.perform ⟨arch, input, output, listing⟩ files =
        .ok { Outcome.success (if listing then a.listing else "") with
          file := some (output, a.bytes) }) ∧
    ∀ (files : Files) (input first last : String) (showBytes : Bool),
      files input = .ok a.bytes →
      (Address.parse first = .ok (base + BitVec.ofNat 32 start) →
        Address.parse last = .ok (base + BitVec.ofNat 32 stop) →
        (base + BitVec.ofNat 32 start).toNat = base.toNat + start ∧
        (base + BitVec.ofNat 32 stop).toNat = base.toNat + stop ∧
        ∃ range : Disassemble.RangeListing,
          Disassemble.RangeOptions.list ⟨input, first, last, base, 0, none, showBytes⟩ arch files
            = .ok range ∧
          range.Lists arch base.toNat 0 (a.between i j)) ∧
      ∀ limit : Address, base.toNat + (stop - start) ≤ limit.toNat →
        Address.parse first = .ok base → Address.parse last = .ok limit →
        ∃ range : Disassemble.RangeListing,
          Disassemble.RangeOptions.list
            ⟨input, first, last, base, start, some (stop - start), showBytes⟩ arch files
            = .ok range ∧
          range.Lists arch base.toNat start (a.between i j) := by
  intro a start stop
  have hlayout : a.LaysOut arch 0 (SourceLine.parse source) :=
    Assembly.laysOut_ofLines arch 0 (SourceLine.pairwise_precedes_parse source)
  have hcapitals : ∀ l ∈ SourceLine.parse source,
      upper l.instruction.mnemonic.toList = l.instruction.mnemonic.toList :=
    fun l hl => SourceLine.capitals_of_mem_ofLines hl
  have hend : base.toNat + a.bytes.length < 2 ^ 32 := hspace
  have hle : i ≤ j := Nat.le_of_lt hij
  have hlt : start < stop := hlayout.boundary_lt hij hj hcapitals
  have hstop : stop ≤ a.bytes.length := hlayout.boundary_le_length j
  have hlength : start + ((a.between i j).flatMap Encoded.bytes).length = stop :=
    hlayout.boundary_add_length hle
  refine ⟨fun _ _ _ _ htext => Assemble.perform_of_isOk htext hok, ?_⟩
  intro files input first last showBytes hfile
  constructor
  · intro hfirst hlast
    have hfrom := hlayout.toNat_add_boundary hend i
    refine ⟨hfrom, hlayout.toNat_add_boundary hend j, _, Disassemble.list_eq hfile
      (Image.load_all _ _) hfirst hlast (hlayout.window?_between hend hlt hle), ?_⟩
    refine Disassemble.lists_of_shows hfrom ?_ (by omega)
    refine (hlayout.forall₂_shows_between hcapitals _).imp ?_
    rintro e l ⟨hl, hshows⟩
    exact ⟨by omega, hshows⟩
  · intro limit hcovers hfirst hlast
    -- the bytes between the boundaries are all of the image
    have hwindow : Image.window? ⟨base, (a.between i j).flatMap Encoded.bytes⟩ base limit
        = some ((a.between i j).flatMap Encoded.bytes) :=
      Image.window?_all (by omega) (by omega) (by omega)
    refine ⟨_, Disassemble.list_eq hfile (hlayout.load_between (Nat.le_of_lt hlt) hle) hfirst
      hlast hwindow, ?_⟩
    refine Disassemble.lists_of_shows rfl ?_ (by omega)
    exact hlayout.forall₂_shows_between hcapitals _

open Command in
/-- The second of three instructions, behind the first one and with the first one skipped. -/
theorem range_lists_instructions_mov :
    let source := "NOP\nMOV AX, 1\nHLT"
    let mov : Encoded := ⟨⟨2, "MOV", ["AX", "1"]⟩, 1, [0xB8, 1, 0]⟩
    let a : Assembly := ⟨[⟨⟨1, "NOP", []⟩, 0, [0x90]⟩, mov, ⟨⟨3, "HLT", []⟩, 4, [0xF4]⟩], []⟩
    let disk : Files := fun path => .ok (if path = "code.asm" then utf8 source else a.bytes)
    assemble .i8086 source = a ∧
    Assemble.perform ⟨.i8086, "code.asm", "code.bin", false⟩ disk =
      .ok { Outcome.success "" with file := some ("code.bin", a.bytes) } ∧
    (∃ range : Disassemble.RangeListing,
      Disassemble.RangeOptions.list ⟨"code.bin", "0x101", "0x104", 0x100, 0, none, false⟩ .i8086
        disk = .ok range ∧ range.Lists .i8086 0x100 0 [mov]) ∧
    ∃ range : Disassemble.RangeListing,
      Disassemble.RangeOptions.list ⟨"code.bin", "0x100", "103H", 0x100, 1, some 3, false⟩ .i8086
        disk = .ok range ∧ range.Lists .i8086 0x100 1 [mov] := by
  intro source mov a disk
  have ha : assemble .i8086 source = a := by decide +kernel
  have h := range_lists_instructions (i := 1) (j := 2) .i8086 source 0x100
  rw [ha] at h
  obtain ⟨hassemble, hlist⟩ := h (by decide) (by decide) (by decide) (by decide)
  obtain ⟨hrange, -⟩ := hlist disk "code.bin" "0x101" "0x104" false rfl
  obtain ⟨-, hpart⟩ := hlist disk "code.bin" "0x100" "103H" false rfl
  obtain ⟨-, -, hrange⟩ := hrange (by decide +kernel) (by decide +kernel)
  exact ⟨ha, hassemble "code.asm" "code.bin" false disk (by decide +kernel), hrange,
    hpart 0x103 (by decide) (by decide +kernel) (by decide +kernel)⟩

end Microlab
