import Microlab.Command.Run
import Microlab.Proofs.LiteralGrammar
import Microlab.Proofs.Memory.History

/-!
# Preloading external memory

A preload is written as hexadecimal numerals: an address, a colon, and the bytes with commas
between them. Each numeral is read as a literal, and a literal that ends in `B` is a binary
one. So a numeral is read back as the number that it was written for exactly if its last digit
is not `B`; otherwise the digits in front of that one are read as bits, and the preload is
refused where they are none.

What is read goes into the memory of the 8051 behind the program and in front of the run,
block after block, at addresses modulo the size of that memory.
-/

namespace Microlab.Command.Run

open Literal Memory Text

/-! ## Hexadecimal numerals -/

/-- What the parser takes a hexadecimal numeral for. -/
inductive TakenFor : List Char → Nat → Prop where
  | hexadecimal {digits : List Char} {n : Nat} (h : Reads 16 digits n)
      (hlast : ¬ EndsIn 'B' 'b' digits) : TakenFor digits n
  | binary {bits : List Char} {c : Char} {n : Nat} (hc : c = 'B' ∨ c = 'b')
      (h : Reads 2 bits n) : TakenFor (bits ++ [c]) n

section

variable {digits : List Char} {k n : Nat}

theorem takenFor_concat_iff {bits : List Char} {c : Char} (hc : c = 'B' ∨ c = 'b') :
    TakenFor (bits ++ [c]) n ↔ Reads 2 bits n := by
  constructor
  · intro h
    generalize htext : bits ++ [c] = text at h
    cases h with
    | hexadecimal _ hlast => exact absurd ⟨bits, c, hc, htext.symm⟩ hlast
    | binary _ h => rwa [(List.append_inj' htext rfl).1]
  · exact .binary hc

theorem takenFor_iff_of_not_endsIn (hlast : ¬ EndsIn 'B' 'b' digits) :
    TakenFor digits n ↔ Reads 16 digits n := by
  constructor
  · rintro (⟨h, -⟩ | ⟨hc, -⟩)
    · exact h
    · exact absurd ⟨_, _, hc, rfl⟩ hlast
  · exact fun h => .hexadecimal h hlast

theorem parse?_eq_some_iff_takenFor (h : Reads 16 digits k) {v : Int} :
    Literal.parse? 16 (String.ofList digits) = some v ↔
      ∃ n, TakenFor digits n ∧ n < 2 ^ 63 ∧ v = n := by
  have hpads : Pads (String.ofList digits).toList digits :=
    String.toList_ofList.symm ▸ Pads.of_forall (isBlank_of_reads h)
  have hsign : Signed digits false digits := by
    refine .plain fun hhead => ?_
    exact not_mem_of_reads h (by decide) (List.mem_of_head? hhead)
  -- The only form but the plain one that digits can have is the binary one.
  by_cases hlast : EndsIn 'B' 'b' digits
  · obtain ⟨bits, c, hc, rfl⟩ := hlast
    rw [parse?_eq_some_iff_of_form hpads hsign (.binarySuffix hc (not_startsHex_of_reads h))]
    simp only [takenFor_concat_iff hc, signed, Bool.false_eq_true, if_false]
  · rw [parse?_eq_some_iff_of_form hpads hsign
      (.plain (not_endsIn_h_of_reads h) (not_startsHex_of_reads h) hlast)]
    simp only [takenFor_iff_of_not_endsIn hlast, signed, Bool.false_eq_true, if_false]

/-- With a `B` behind them, bits are worth more as hexadecimal digits. -/
theorem lt_of_reads_concat {bits : List Char} {c : Char} (hc : c = 'B' ∨ c = 'b')
    (hbits : Reads 2 bits n) (h : Reads 16 (bits ++ [c]) k) : n < k := by
  obtain ⟨-, ds, hds, hall, rfl⟩ := hbits
  have hdigit : IsDigit c 11 := digit?_eq_some_iff.mp (by rcases hc with rfl | rfl <;> decide)
  have hhex : Reads 16 (bits ++ [c]) (11 + 16 * Nat.ofDigits 16 ds.reverse) := by
    refine ⟨by simp, ds ++ [11], List.rel_append hds (.cons hdigit .nil), ?_, ?_⟩
    · simp only [List.forall_mem_append, List.forall_mem_singleton]
      exact ⟨fun d hd => Nat.lt_of_lt_of_le (hall d hd) (by decide), by decide⟩
    · rw [List.reverse_concat, Nat.ofDigits_cons]
  have hle : Nat.ofDigits 2 ds.reverse ≤ Nat.ofDigits 16 ds.reverse :=
    Nat.ofDigits_monotone ds.reverse (by decide)
  rw [reads_unique h hhex]
  omega

/-- A numeral is taken for the number that it was written for exactly if its last digit is not
`B`. -/
theorem takenFor_self_iff (h : Reads 16 digits k) :
    TakenFor digits k ↔ ¬ EndsIn 'B' 'b' digits := by
  constructor
  · rintro htaken ⟨bits, c, hc, rfl⟩
    have hbits := (takenFor_concat_iff hc).mp htaken
    exact Nat.lt_irrefl k (lt_of_reads_concat hc hbits h)
  · exact .hexadecimal h

/-- A number that has fewer bits than a literal is not cut off. -/
theorem parse?_eq_some_toNat_iff (h : Reads 16 digits k) {w : Nat} (hw : w ≤ 63)
    (b : BitVec w) :
    Literal.parse? 16 (String.ofList digits) = some (b.toNat : Int) ↔ TakenFor digits b.toNat := by
  have hlt : b.toNat < 2 ^ 63 :=
    Nat.lt_of_lt_of_le b.isLt (Nat.pow_le_pow_right Nat.two_pos hw)
  rw [parse?_eq_some_iff_takenFor h]
  constructor
  · rintro ⟨n, hn, -, heq⟩
    rwa [Int.ofNat_inj.mp heq]
  · exact fun h => ⟨_, h, hlt, rfl⟩

end

/-! ## An address and a byte -/

theorem preloadByte_eq_ok_iff {text : String} {b : Byte} :
    preloadByte text = .ok b ↔ Literal.parse? 16 text = some (b.toNat : Int) := by
  unfold preloadByte
  cases Literal.parse? 16 text with
  | none => exact iff_of_false nofun nofun
  | some v =>
      rw [Option.map_some, Option.some_inj, ← unsigned_eq_ok_iff]
      cases unsigned 8 v with
      | error e => exact iff_of_false nofun nofun
      | ok b' => simp

theorem preloadAddress_eq_ok_iff {text : String} {a : Word} :
    preloadAddress text = .ok a ↔ Literal.parse? 16 text = some (a.toNat : Int) := by
  unfold preloadAddress
  cases Literal.parse? 16 text with
  | none => exact iff_of_false nofun nofun
  | some v =>
      rw [Option.some_inj, ← unsigned_eq_ok_iff]
      show (unsigned 16 v).mapError _ = .ok a ↔ _
      cases unsigned 16 v with
      | error e => exact iff_of_false nofun nofun
      | ok a' => simp [Except.mapError]

/-! ## Texts -/

/-- An address and bytes as they are written on a command line. -/
def written (address : List Char) (bytes : List (List Char)) : String :=
  String.ofList (address ++ ':' :: [','].intercalate bytes)

theorem splitColon?_written {address : List Char} (h : ':' ∉ address)
    (bytes : List (List Char)) :
    splitColon? (written address bytes) =
      some (String.ofList address, String.ofList ([','].intercalate bytes)) := by
  have hne : ∀ c ∈ address, decide (c ≠ ':') = true := fun c hc =>
    decide_eq_true fun heq => h (heq ▸ hc)
  unfold splitColon? written
  rw [String.toList_ofList, List.dropWhile_append_of_pos hne, List.takeWhile_append_of_pos hne]
  simp

/-- Numerals come out of a list as they went in. -/
theorem splitOn_trimmed {bytes : List (List Char)} (hcomma : ∀ d ∈ bytes, ',' ∉ d)
    (htrim : ∀ d ∈ bytes, trim d = d) (hne : ∀ d ∈ bytes, d ≠ []) :
    ((([','].intercalate bytes).splitOn ',').map trim).filter (!·.isEmpty) = bytes := by
  cases bytes with
  | nil => decide
  | cons d bytes =>
      rw [List.splitOn_intercalate ',' hcomma (List.cons_ne_nil _ _), List.map_congr_left htrim,
        List.map_id', List.filter_eq_self.mpr]
      intro d hd
      simpa using hne d hd

section

variable {α β ε : Type}

theorem bind_eq_ok_iff {x : Except ε α} {f : α → Except ε β} {y : β} :
    x >>= f = .ok y ↔ ∃ a, x = .ok a ∧ f a = .ok y := by
  cases x <;> simp [bind, Except.bind]

theorem mapM_eq_ok_iff {f : α → Except ε β} {xs : List α} {ys : List β} :
    xs.mapM f = .ok ys ↔ List.Forall₂ (fun x y => f x = .ok y) xs ys := by
  induction xs generalizing ys with
  | nil => simp [pure, Except.pure, eq_comm]
  | cons x xs ih =>
      rw [List.mapM_cons, List.forall₂_cons_left_iff]
      simp only [bind_eq_ok_iff, ih]
      constructor
      · rintro ⟨y, hy, ys', hys, ⟨⟩⟩
        exact ⟨y, ys', hy, hys, rfl⟩
      · rintro ⟨y, ys', hy, hys, rfl⟩
        exact ⟨y, hy, ys', hys, rfl⟩

end

section

variable {ad : List Char} {ds : List (List Char)} {bytes : List Byte}

theorem exists_reads_of_forall₂
    (hb : List.Forall₂ (fun d (b : Byte) => Reads 16 d b.toNat) ds bytes) :
    ∀ d ∈ ds, ∃ n, Reads 16 d n := by
  induction hb with
  | nil => exact nofun
  | cons h _ ih => exact List.forall_mem_cons.mpr ⟨⟨_, h⟩, ih⟩

theorem forall₂_takenFor_self_iff
    (hb : List.Forall₂ (fun d (b : Byte) => Reads 16 d b.toNat) ds bytes) :
    List.Forall₂ (fun d (b : Byte) => TakenFor d b.toNat) ds bytes ↔
      ∀ d ∈ ds, ¬ EndsIn 'B' 'b' d := by
  induction hb with
  | nil => simp
  | cons h _ ih => rw [List.forall₂_cons, List.forall_mem_cons, takenFor_self_iff h, ih]

theorem preload_written_eq (hcolon : ':' ∉ ad) (hcomma : ∀ d ∈ ds, ',' ∉ d)
    (htrim : ∀ d ∈ ds, trim d = d) (hne : ∀ d ∈ ds, d ≠ []) :
    preload (written ad ds) = do
      let address ← preloadAddress (String.ofList ad)
      let bytes ← ds.mapM fun cs => preloadByte (String.ofList cs)
      return (address, bytes) := by
  unfold preload
  rw [splitColon?_written hcolon]
  show (preloadAddress (String.ofList ad) >>= fun address =>
    List.mapM _ (((String.ofList _).toList.splitOn ',').map trim |>.filter _) >>= fun bytes =>
      pure (address, bytes)) = _
  rw [String.toList_ofList, splitOn_trimmed hcomma htrim hne]

theorem mapM_preloadByte_eq_ok_iff (hb : ∀ d ∈ ds, ∃ n, Reads 16 d n) {bs : List Byte} :
    (ds.mapM fun cs => preloadByte (String.ofList cs)) = .ok bs ↔
      List.Forall₂ (fun d b => TakenFor d b.toNat) ds bs := by
  have hbyte : ∀ {d b}, (∃ n, Reads 16 d n) →
      (preloadByte (String.ofList d) = .ok b ↔ TakenFor d b.toNat) := by
    rintro d b ⟨n, hd⟩
    rw [preloadByte_eq_ok_iff, parse?_eq_some_toNat_iff hd (by decide)]
  rw [mapM_eq_ok_iff]
  constructor
  · intro h
    exact (List.forall₂_and_left _ _ |>.mpr ⟨hb, h⟩).imp fun _ _ h => (hbyte h.1).mp h.2
  · intro h
    exact (List.forall₂_and_left _ _ |>.mpr ⟨hb, h⟩).imp fun _ _ h => (hbyte h.1).mpr h.2

theorem preload_written_eq_ok_iff {k : Nat} (ha : Reads 16 ad k)
    (hb : ∀ d ∈ ds, ∃ n, Reads 16 d n) {a : Word} {bs : List Byte} :
    preload (written ad ds) = .ok (a, bs) ↔
      TakenFor ad a.toNat ∧ List.Forall₂ (fun d b => TakenFor d b.toNat) ds bs := by
  have hcolon : ':' ∉ ad := not_mem_of_reads ha (by decide)
  have hcomma : ∀ d ∈ ds, ',' ∉ d := fun d hd =>
    (hb d hd).elim fun _ h => not_mem_of_reads h (by decide)
  have htrim : ∀ d ∈ ds, trim d = d := fun d hd =>
    (hb d hd).elim fun _ h => (Pads.of_forall (isBlank_of_reads h)).trim_eq
  have hne : ∀ d ∈ ds, d ≠ [] := fun d hd => (hb d hd).elim fun _ h => h.1
  have haddress : preloadAddress (String.ofList ad) = .ok a ↔ TakenFor ad a.toNat := by
    rw [preloadAddress_eq_ok_iff, parse?_eq_some_toNat_iff ha (by decide)]
  rw [preload_written_eq hcolon hcomma htrim hne, ← haddress, ← mapM_preloadByte_eq_ok_iff hb]
  simp only [bind_eq_ok_iff]
  constructor
  · rintro ⟨a', ha', bs', hbs', ⟨⟩⟩
    exact ⟨ha', hbs'⟩
  · rintro ⟨ha', hbs'⟩
    exact ⟨a, ha', bs, hbs', rfl⟩

end

/-! ## Blocks in memory -/

/-- The bytes of blocks with their places, in the order in which they are put there. -/
def placed (blocks : List (Word × List Byte)) : List Stored :=
  blocks.flatMap fun block => block.2.zipIdx block.1.toNat

def announcement (block : Word × List Byte) : LogEntry :=
  .info (s!"Loaded {block.2.length} bytes of external memory at "
    ++ s!"0x{Text.hex .upper 4 block.1.toNat}")

/-- The session with blocks in the memory of its 8051. -/
def preloaded (s : Session) (blocks : List (Word × List Byte)) : Session :=
  let m : I8051.Machine := s.i8051
  { s with i8051 := { m with memory := m.memory.storeAll (placed blocks) } }.report
    (blocks.map announcement)

theorem applyPreload_eq_ok {s : Session} (hs : s.arch = .i8051) {spec : String}
    {block : Word × List Byte} (h : preload spec = .ok block) :
    applyPreload s spec = .ok (preloaded s [block]) := by
  obtain ⟨address, bytes⟩ := block
  have hload : s.loadExternal address bytes = .ok (preloaded s [(address, bytes)]) := by
    unfold Session.loadExternal
    rw [hs]
    simp only [preloaded, placed, List.flatMap_singleton, storeAll_zipIdx, BitVec.ofNat_toNat]
    rfl
  unfold applyPreload
  rw [h]
  simp only [bind, Except.bind, hload]
  rfl

theorem preloaded_nil (s : Session) : preloaded s [] = s := by
  show { s with log := s.log ++ ([] : List LogEntry) } = s
  rw [Array.appendList_nil]

theorem preloaded_cons (s : Session) (block : Word × List Byte)
    (blocks : List (Word × List Byte)) :
    preloaded (preloaded s [block]) blocks = preloaded s (block :: blocks) := by
  simp [preloaded, placed, storeAll, Session.report, List.foldl_append]

theorem foldlM_applyPreload_eq_ok {specs : List String} {blocks : List (Word × List Byte)}
    (h : List.Forall₂ (fun spec block => preload spec = .ok block) specs blocks) {s : Session}
    (hs : s.arch = .i8051) : specs.foldlM applyPreload s = .ok (preloaded s blocks) := by
  induction h generalizing s with
  | nil =>
      rw [preloaded_nil]
      rfl
  | @cons spec block specs blocks hspec _ ih =>
      have hrest : specs.foldlM applyPreload (preloaded s [block]) =
          .ok (preloaded (preloaded s [block]) blocks) := ih hs
      rw [List.foldlM_cons, applyPreload_eq_ok hs hspec, ← preloaded_cons s block blocks]
      exact hrest

theorem read_preloaded (s : Session) (blocks : List (Word × List Byte)) (x : Address) :
    (preloaded s blocks).i8051.memory.read x =
      (lastAt 16 (placed blocks) x.toNat).getD (s.i8051.memory.read x) :=
  read_storeAll (by decide) s.i8051.memory (placed blocks) x

/-! ## The command -/

theorem perform_of_preloads {o : Options} {files : Files} {config : Config} {source : String}
    (hconfig : readConfig files o.config = .ok config)
    (harch : o.arch.getD config.arch = .i8051) (hsource : readText files o.input = .ok source)
    {blocks : List (Word × List Byte)}
    (hblocks : List.Forall₂ (fun spec block => preload spec = .ok block) o.preloads blocks) :
    let settings : Config := ⟨.i8051, o.stepLimit.or config.stepLimit⟩
    let loaded := (((Session.new settings).setSource source).loadProgram).1
    let ran := (preloaded loaded blocks).run
    perform o files = .ok (.success (report ran.1 ran.2 o.format)) := by
  intro settings loaded ran
  have hready : o.preloads.foldlM applyPreload loaded = .ok (preloaded loaded blocks) :=
    foldlM_applyPreload_eq_ok hblocks rfl
  unfold perform
  rw [hconfig, hsource]
  show Except.bind (o.preloads.foldlM applyPreload (((Session.new ⟨o.arch.getD config.arch,
    o.stepLimit.or config.stepLimit⟩).setSource source).loadProgram).1) _ = _
  rw [harch, hready]
  rfl

/-- **A preload in hexadecimal digits is read back, but for a last `B`.** For every address and
all bytes, written as numerals of any length, a preload means what each numeral is taken for,
and it is refused where a numeral is taken for nothing. This is the address and these bytes
exactly if no numeral ends in `B`. A run of the 8051 starts from the loaded program with the
blocks of its preloads put into memory one after the other, and nothing else changed but the
log: an address holds the last byte that was put at a place congruent to it modulo `2 ^ 16`,
or what the program left there. -/
theorem preload_written {ad : List Char} {ds : List (List Char)} {address : Word}
    {bytes : List Byte} (ha : Reads 16 ad address.toNat)
    (hb : List.Forall₂ (fun d (b : Byte) => Reads 16 d b.toNat) ds bytes) :
    (∀ a bs, preload (written ad ds) = .ok (a, bs) ↔
      TakenFor ad a.toNat ∧ List.Forall₂ (fun d b => TakenFor d b.toNat) ds bs) ∧
    (preload (written ad ds) = .ok (address, bytes) ↔
      ∀ d ∈ ad :: ds, ¬ EndsIn 'B' 'b' d) ∧
    ∀ (o : Options) (files : Files) (config : Config) (source : String)
      (blocks : List (Word × List Byte)),
      readConfig files o.config = .ok config → o.arch.getD config.arch = .i8051 →
      readText files o.input = .ok source →
      List.Forall₂ (fun spec block => preload spec = .ok block) o.preloads blocks →
      let settings : Config := ⟨.i8051, o.stepLimit.or config.stepLimit⟩
      let loaded := (((Session.new settings).setSource source).loadProgram).1
      let ready := preloaded loaded blocks
      perform o files = .ok (.success (report ready.run.1 ready.run.2 o.format)) ∧
        ∀ x, ready.i8051.memory.read x =
          (lastAt 16 (placed blocks) x.toNat).getD (loaded.i8051.memory.read x) := by
  have hread : ∀ a bs, preload (written ad ds) = .ok (a, bs) ↔
      TakenFor ad a.toNat ∧ List.Forall₂ (fun d b => TakenFor d b.toNat) ds bs :=
    fun _ _ => preload_written_eq_ok_iff ha (exists_reads_of_forall₂ hb)
  refine ⟨hread, ?_, ?_⟩
  · rw [hread, takenFor_self_iff ha, forall₂_takenFor_self_iff hb, List.forall_mem_cons]
  · intro o files config source blocks hconfig harch hsource hblocks settings loaded ready
    exact ⟨perform_of_preloads hconfig harch hsource hblocks, read_preloaded loaded blocks⟩

/-- A block that wraps at the top of the memory. -/
theorem preload_written_wrapped :
    let o : Options := ⟨some .i8051, none, .text, ["FFFE:0c,7F,1"], none, "p.asm"⟩
    preload "FFFE:0c,7F,1" = .ok (0xFFFE, [0x0C, 0x7F, 1]) ∧
      ∃ ready : Session, perform o (fun _ => .ok []) =
          .ok (.success (report ready.run.1 ready.run.2 .text)) ∧
        ready.i8051.memory.read 0xFFFF = 0x7F ∧ ready.i8051.memory.read 0 = 1 := by
  intro o
  have ha : Reads 16 "FFFE".toList (0xFFFE : Word).toNat := digits?_eq_some_iff.mp (by decide)
  have hb : List.Forall₂ (fun d (b : Byte) => Reads 16 d b.toNat)
      ["0c".toList, "7F".toList, "1".toList] [0x0C, 0x7F, 1] :=
    .cons (digits?_eq_some_iff.mp (by decide)) <| .cons (digits?_eq_some_iff.mp (by decide)) <|
      .cons (digits?_eq_some_iff.mp (by decide)) .nil
  obtain ⟨-, hexact, hrun⟩ := preload_written ha hb
  have hspec : preload "FFFE:0c,7F,1" = .ok (0xFFFE, [0x0C, 0x7F, 1]) := by
    refine hexact.mpr ?_
    simp only [endsIn_pair_iff]
    decide
  obtain ⟨hperform, hmemory⟩ := hrun o (fun _ => .ok []) default "" [(0xFFFE, [0x0C, 0x7F, 1])]
    rfl rfl (by decide +kernel) (.cons hspec .nil)
  refine ⟨hspec, _, hperform, ?_, ?_⟩
  · rw [hmemory]
    decide +kernel
  · rw [hmemory]
    decide +kernel

/-- `1B` is a numeral for twenty-seven, and the byte that is read is one. -/
theorem preloads_bits :
    Reads 16 "10".toList (0x10 : Word).toNat ∧ Reads 16 "1B".toList (0x1B : Byte).toNat ∧
      preload (written "10".toList ["1B".toList]) = .ok (0x10, [1]) ∧
      preload (written "10".toList ["1B".toList]) ≠ .ok (0x10, [0x1B]) := by
  have hread : preload (written "10".toList ["1B".toList]) = .ok (0x10, [1]) := by decide
  refine ⟨digits?_eq_some_iff.mp (by decide), digits?_eq_some_iff.mp (by decide), hread, ?_⟩
  rw [hread]
  decide

end Microlab.Command.Run
