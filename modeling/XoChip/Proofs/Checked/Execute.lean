import XoChip.Proofs.Checked.Memory
import XoChip.Proofs.Checked.Registers
import XoChip.Proofs.Checked.Sprite

/-!
Instructions carried out on the operands found in a word, through checked places. Main statement:
whatever the operands are, no instruction misses a place or leaves the range of a number, and each
does what it is to do (`execute_eq`).
-/

namespace XoChip.Checked
open Machine

/-! ## Handlers -/

/-- Passes over the next instruction. -/
def skipIf (m : Machine) (condition : Bool) : Option Machine :=
  if condition then do
    let next ← readWord m.memory m.pc
    some { m with pc := m.pc + skipLength next }
  else some m

/-- Passes over the next instruction on a comparison of a register with a byte. -/
def skipByte (m : Machine) (os : Vector Operand 3) (condition : UInt8 → UInt8 → Bool) :
    Option Machine := do
  let a ← valueAt m os 0
  let b ← byteAt os 1
  skipIf m (condition a b)

/-- Passes over the next instruction on a comparison of two registers. -/
def skipRegister (m : Machine) (os : Vector Operand 3) (condition : UInt8 → UInt8 → Bool) :
    Option Machine := do
  let a ← valueAt m os 0
  let b ← valueAt m os 1
  skipIf m (condition a b)

/-- Passes over the next instruction if a key is up or down. -/
def skipKey (m : Machine) (os : Vector Operand 3) (down : Bool) : Option Machine := do
  let key ← valueAt m os 0
  let pressed ← m.keys[key.toNat % 16]?
  skipIf m (pressed == down)

def storeRange (m : Machine) (os : Vector Operand 3) : Option Machine := do
  let x ← registerAt os 0
  let y ← registerAt os 1
  let rs ← span x y
  let bus ← storeEach (fun r => m.v[r]?) m.i 0 rs m.toBus
  some { m with toBus := bus }

def fetchRange (m : Machine) (os : Vector Operand 3) : Option Machine := do
  let x ← registerAt os 0
  let y ← registerAt os 1
  let rs ← span x y
  let v ← fetchEach m.memory m.i 0 rs m.v
  some { m with v := v }

/-- The register a jump adds: the one named by the high digit of its base, in some dialects. -/
def jumpRegister (m : Machine) (base : Word) : Option Nat :=
  if m.dialect.jump then shiftRight 16 (base &&& 0xF00).toNat 8 else some 0

def jumpPlus (m : Machine) (os : Vector Operand 3) : Option Machine := do
  let base ← wordAt os 0
  let r ← jumpRegister m base
  let offset ← m.v[r]?
  some { m with pc := base + offset.toUInt16 }

def drawRandom (m : Machine) (os : Vector Operand 3) : Option Machine := do
  let (byte, random) := m.random.next
  let mask ← byteAt os 1
  setAt { m with random := random } os 0 (byte &&& mask)

def sprite (m : Machine) (os : Vector Operand 3) : Option Machine :=
  if m.holdsSprites then some m.holdSprite
  else do
    let rows ← os[2]?
    let x ← valueAt m os 0
    let y ← valueAt m os 1
    let narrow := m.dialect.loresSprites && !m.display.hires
    let cleared ← setFlag m 0
    if fits : rows.value < 16 then do
      let (hit, display) ← draw m.display m.memory m.i x y ⟨rows.value, fits⟩ narrow m.dialect.clip
      let drawn ← setFlag cleared hit.toUInt8
      some { drawn with
        display := display
        frameWait := if m.dialect.vblank then .idle else m.frameWait }
    else none

def fetchPattern (m : Machine) : Option Machine := do
  let pattern ← (List.range 16).foldlM (fun pattern k => do
    let b ← read m.memory (m.i + UInt16.ofNat k)
    put pattern (k % 16) b) m.memory.pattern
  some { m with memory := { m.memory with pattern := pattern, beep := false } }

def awaitKey (m : Machine) (os : Vector Operand 3) : Option Machine := do
  let x ← registerAt os 0
  if fits : x < 16 then some { m with keyWait := some ⟨x, fits⟩ } else none

def addIndex (m : Machine) (os : Vector Operand 3) : Option Machine := do
  let offset ← valueAt m os 0
  let sum := m.i + offset.toUInt16
  if m.dialect.indexCarry then
    setFlag { m with i := sum &&& 0xFFF } (decide (0xFFF < sum)).toUInt8
  else some { m with i := sum }

def decimal (m : Machine) (os : Vector Operand 3) : Option Machine := do
  let b ← valueAt m os 0
  let bus ← storeEach some m.i 0 [b / 100 % 10, b / 10 % 10, b % 10] m.toBus
  some { m with toBus := bus }

/-- Moves the index register past the registers up to `x`. -/
def advanceIndex (m : Machine) (x : Nat) : Option Machine :=
  if m.dialect.loadStore then some m
  else do
    let length ← add 16 x 1
    some { m with i := m.i + UInt16.ofNat length }

def store (m : Machine) (os : Vector Operand 3) : Option Machine := do
  let x ← registerAt os 0
  let bus ← storeEach (fun r => m.v[r]?) m.i 0 (List.range (x + 1)) m.toBus
  advanceIndex { m with toBus := bus } x

def fetch (m : Machine) (os : Vector Operand 3) : Option Machine := do
  let x ← registerAt os 0
  let v ← fetchEach m.memory m.i 0 (List.range (x + 1)) m.v
  advanceIndex { m with v := v } x

def saveFlags (m : Machine) (os : Vector Operand 3) : Option Machine := do
  let x ← registerAt os 0
  match m.flagsPath with
  | none => some (m.notify .noFlagsToSave)
  | some path =>
    let last ← add 64 x 1
    let saved ← slice m.v 0 last
    let flags ← blit (Vector.replicate 16 0) 0 last saved
    match m.files.write path flags.toList with
    | .ok files => some { m with files := files }
    | .error e => some (m.notify (.flagsNotSaved path e.message))

def loadFlags (m : Machine) (os : Vector Operand 3) : Option Machine := do
  let x ← registerAt os 0
  match m.flagsPath with
  | none => some { m.notify .noFlagsToLoad with v := Vector.replicate 16 0 }
  | some path =>
    match m.files.read path with
    | .ok bytes =>
      let last ← add 64 x 1
      let shown ← slice m.v 0 last
      let v ← blit m.v 0 last (shown.mapIdx fun r _ => bytes.getD r 0)
      some { m with v := v }
    | .error e =>
      some { m.notify (.flagsNotLoaded path e.message) with v := Vector.replicate 16 0 }

/-- Changes the resolution and blanks both planes, the mask put back behind it. -/
def setHires (m : Machine) (on : Bool) : Option Machine := do
  let display ← clear ((m.display.setHires on).setMask 3)
  some { m with display := display.setMask m.display.mask }

/-- Carries out an instruction on the operands in `os`; those it carries are not looked at. -/
def execute (m : Machine) (os : Vector Operand 3) : Instruction → Option Machine
  | .scrollDown _ => do
    let n ← byteAt os 0
    let display ← scrollDown n.toNat m.display
    some { m with display := display }
  | .scrollUp _ => do
    let n ← byteAt os 0
    let display ← scrollUp n.toNat m.display
    some { m with display := display }
  | .clear => do
    let display ← clear m.display
    some { m with display := display }
  | .ret => some m.returnFromCall
  | .scrollRight => do
    let display ← scrollRight sideStep m.display
    some { m with display := display }
  | .scrollLeft => do
    let display ← scrollLeft sideStep m.display
    some { m with display := display }
  | .exit => some (m.setHalted true)
  | .lores => setHires m false
  | .hires => setHires m true
  | .jump _ => (wordAt os 0).map fun a => { m with pc := a }
  | .call _ => (wordAt os 0).map m.call
  | .skipEqual _ _ => skipByte m os (· == ·)
  | .skipNotEqual _ _ => skipByte m os (· != ·)
  | .skipSame _ _ => skipRegister m os (· == ·)
  | .storeRange _ _ => storeRange m os
  | .fetchRange _ _ => fetchRange m os
  | .load _ _ => do
    let b ← byteAt os 1
    setAt m os 0 b
  | .add _ _ => do
    let a ← valueAt m os 0
    let b ← byteAt os 1
    setAt m os 0 (a + b)
  | .copy _ _ => do
    let b ← valueAt m os 1
    setAt m os 0 b
  | .or _ _ => bitwise m os (· ||| ·)
  | .and _ _ => bitwise m os (· &&& ·)
  | .xor _ _ => bitwise m os (· ^^^ ·)
  | .addRegister _ _ => flagged m os fun a b => (a + b, 255 < a.toNat + b.toNat)
  | .subtract _ _ => flagged m os fun a b => (a - b, b ≤ a)
  | .shiftRight _ _ => shift m os (· >>> 1) (· &&& 1)
  | .subtractFrom _ _ => flagged m os fun a b => (b - a, a ≤ b)
  | .shiftLeft _ _ => shift m os (· <<< 1) (· >>> 7)
  | .skipDifferent _ _ => skipRegister m os (· != ·)
  | .setIndex _ | .setIndexLong _ => (wordAt os 0).map fun a => { m with i := a }
  | .jumpPlus _ => jumpPlus m os
  | .random _ _ => drawRandom m os
  | .sprite _ _ _ => sprite m os
  | .skipPressed _ => skipKey m os true
  | .skipReleased _ => skipKey m os false
  | .selectPlanes _ => do
    let mask ← byteAt os 0
    some { m with display := m.display.setMask mask.toNat }
  | .audio => fetchPattern m
  | .readDelay _ => setAt m os 0 m.delay
  | .awaitKey _ => awaitKey m os
  | .setDelay _ => (valueAt m os 0).map fun b => { m with delay := b }
  | .setSound _ => (valueAt m os 0).map fun b => { m with sound := b }
  | .addIndex _ => addIndex m os
  | .smallDigit _ => do
    let c ← valueAt m os 0
    let a ← smallDigit c
    some { m with i := a }
  | .largeDigit _ => do
    let c ← valueAt m os 0
    let a ← largeDigit (c &&& 0xF)
    some { m with i := a }
  | .decimal _ => decimal m os
  | .setPitch _ => (valueAt m os 0).map fun b =>
    { m with pitch := b, pitchDirty := true, memory := { m.memory with beep := false } }
  | .store _ => store m os
  | .fetch _ => fetch m os
  | .saveFlags _ => saveFlags m os
  | .loadFlags _ => loadFlags m os

/-! ## Each handler -/

section
variable (m : Machine) (x y : Register)

theorem skipIf_eq (condition : Bool) : skipIf m condition = some (m.skipIf condition) := by
  unfold skipIf Machine.skipIf
  split
  · rw [readWord_eq, some_bind]
  · rfl

theorem skipByte_eq (b : UInt8) (condition : UInt8 → UInt8 → Bool) :
    skipByte m (Operand.slots [.register x, .byte b]) condition =
      some (m.skipIf (condition (m.v.get x) b)) := by
  rw [skipByte, valueAt_eq m (slots_first ..), some_bind, byteAt_byte (slots_second ..),
    some_bind, skipIf_eq]

theorem skipRegister_eq (condition : UInt8 → UInt8 → Bool) :
    skipRegister m (Operand.slots [.register x, .register y]) condition =
      some (m.skipIf (condition (m.v.get x) (m.v.get y))) := by
  rw [skipRegister, valueAt_eq m (slots_first ..), some_bind, valueAt_eq m (slots_second ..),
    some_bind, skipIf_eq]

theorem skipKey_eq (down : Bool) :
    skipKey m (Operand.slots [.register x]) down = some (m.skipIf (m.pressed x == down)) := by
  have key : m.keys[(m.v.get x).toNat % 16]? = some (m.pressed x) :=
    getElem?_fin m.keys (Processor.keyOf (m.v.get x))
  rw [skipKey, valueAt_eq m (slots_first ..), some_bind, key, some_bind, skipIf_eq]

theorem storeRegisters_eq (rs : List Register) :
    storeEach (fun r => m.v[r]?) m.i 0 (rs.map Fin.val) m.toBus =
      some (m.toBus.writeBlock m.i (m.v.gather rs)) := by
  rw [storeEach_eq (fun r : Register => getElem?_fin m.v r)]
  exact congrArg (fun i => some (m.toBus.writeBlock i (m.v.gather rs))) (UInt16.add_zero m.i)

theorem storeRange_eq :
    storeRange m (Operand.slots [.register x, .register y]) = some (m.storeRange x y) := by
  rw [storeRange, registerAt_eq (slots_first ..), some_bind, registerAt_eq (slots_second ..),
    some_bind, span_eq, some_bind, storeRegisters_eq, some_bind]
  rfl

theorem fetchRegisters_eq (rs : List Register) :
    fetchEach m.memory m.i 0 (rs.map Fin.val) m.v =
      some (m.v.scatter rs (m.memory.readBlock m.i rs.length)) := by
  rw [fetchEach_eq]
  exact congrArg (fun i => some (m.v.scatter rs (m.memory.readBlock i rs.length)))
    (UInt16.add_zero m.i)

theorem fetchRange_eq :
    fetchRange m (Operand.slots [.register x, .register y]) = some (m.fetchRange x y) := by
  rw [fetchRange, registerAt_eq (slots_first ..), some_bind, registerAt_eq (slots_second ..),
    some_bind, span_eq, some_bind, fetchRegisters_eq, some_bind]
  rfl

theorem jumpRegister_eq (a : ShortAddress) :
    jumpRegister m (Word.ofShort a) =
      some (if m.dialect.jump then Fin.ofNat 16 (a.val / 0x100) else 0 : Register).val := by
  have value : (Word.ofShort a).toNat = a.val :=
    UInt16.toNat_ofNat_of_lt (Nat.lt_trans a.isLt (by decide))
  have digit : (Word.ofShort a &&& 0xF00).toNat >>> 8 = a.val / 0x100 % 16 := by
    rw [UInt16.toNat_and, value, Nat.shiftRight_and_distrib, Nat.shiftRight_eq_div_pow]
    exact Nat.and_two_pow_sub_one_eq_mod _ 4
  unfold jumpRegister
  split
  · rw [shiftRight_eq (by decide), digit]
    rfl
  · rfl

theorem jumpPlus_eq (a : ShortAddress) :
    jumpPlus m (Operand.slots [.short a]) = some (m.jumpPlus a) := by
  rw [jumpPlus, wordAt_short (slots_first ..), some_bind, jumpRegister_eq, some_bind,
    getElem?_fin, some_bind]
  rfl

theorem drawRandom_eq (mask : UInt8) :
    drawRandom m (Operand.slots [.register x, .byte mask]) = some (m.drawRandom x mask) := by
  rw [drawRandom, byteAt_byte (slots_second ..)]
  simp only [some_bind]
  rw [setAt_eq _ (slots_first ..)]
  rfl

theorem setRegister_again (b c : UInt8) :
    (m.setRegister x b).setRegister x c = m.setRegister x c := by
  simp only [setRegister, Registers.put, Vector.set_set]

theorem sprite_eq (n : Fin 16) :
    sprite m (Operand.slots [.register x, .register y, .nibble n]) = some (m.sprite x y n) := by
  unfold sprite Machine.sprite
  split
  · rfl
  · rw [slots_third, some_bind, valueAt_eq m (slots_first ..), some_bind,
      valueAt_eq m (slots_second ..), some_bind, setFlag_eq]
    simp only [some_bind, Operand.value, n.isLt, ↓reduceDIte, draw_eq, setFlag_eq,
      setRegister_again]
    rfl

theorem fetchPattern_eq : fetchPattern m = some m.fetchPattern := by
  have rounds : (List.range 16).foldlM (fun pattern k => do
      let b ← read m.memory (m.i + UInt16.ofNat k)
      put pattern (k % 16) b) m.memory.pattern =
      some ((List.range 16).foldl
        (fun pattern k => pattern.setIfInBounds k (m.memory.read (m.i + UInt16.ofNat k)))
        m.memory.pattern) := by
    refine foldlM_eq id (fun pattern k h => ?_) _
    have small := List.mem_range.mp h
    rw [read_eq, some_bind, Nat.mod_eq_of_lt small]
    exact put_setIfInBounds pattern _ small
  have pattern : (List.range 16).foldl
      (fun pattern k => pattern.setIfInBounds k (m.memory.read (m.i + UInt16.ofNat k)))
      m.memory.pattern = Vector.ofFn fun k => m.memory.read (m.i + UInt16.ofNat k.val) := by
    ext1 k hk
    rw [getElem_setEach _ _ hk, if_pos hk, Vector.getElem_ofFn]
  rw [fetchPattern, rounds, some_bind, pattern]
  rfl

theorem awaitKey_eq :
    awaitKey m (Operand.slots [.register x]) = some { m with keyWait := some x } := by
  rw [awaitKey, registerAt_eq (slots_first ..), some_bind, dif_pos x.isLt]

theorem addIndex_eq : addIndex m (Operand.slots [.register x]) = some (m.addIndex x) := by
  rw [addIndex, valueAt_eq m (slots_first ..), some_bind]
  simp only [Machine.addIndex, setFlag_eq]
  split <;> rfl

theorem decimal_eq : decimal m (Operand.slots [.register x]) =
    some { m with toBus := m.toBus.writeBlock m.i (Registers.decimal (m.v.get x)) } := by
  have hundreds (b : UInt8) : b / 100 % 10 = b / 100 := by
    have small := b.toNat_lt
    rw [← UInt8.toNat_inj, UInt8.toNat_mod, UInt8.toNat_div]
    change b.toNat / 100 % 10 = b.toNat / 100
    omega
  have stored (bs : List UInt8) :
      storeEach some m.i 0 bs m.toBus = some (m.toBus.writeBlock m.i bs) := by
    have written := storeEach_eq (f := id) (g := id) (fun b => rfl) m.i 0 bs m.toBus
    rw [List.map_id] at written
    rw [written]
    exact congrArg (fun i => some (m.toBus.writeBlock i bs)) (UInt16.add_zero m.i)
  rw [decimal, valueAt_eq m (slots_first ..), some_bind, stored, some_bind, hundreds]
  rfl

theorem advanceIndex_eq : advanceIndex m x.val = some (m.advanceIndex x) := by
  unfold advanceIndex Machine.advanceIndex
  split
  · rfl
  · rw [add_eq (by omega), some_bind]

theorem gather_first (v : Registers) :
    v.gather ((List.finRange 16).take (x.val + 1)) = v.upTo x := by
  have all : (List.finRange 16).map v.get = v.toList := by
    refine List.ext_getElem (by simp) fun k _ _ => ?_
    simp only [List.getElem_map, List.getElem_finRange, Vector.getElem_toList]
    rfl
  rw [Registers.gather, List.map_take, all, Registers.upTo]

theorem store_eq : store m (Operand.slots [.register x]) = some (m.store x) := by
  have range : List.range (x.val + 1) = ((List.finRange 16).take (x.val + 1)).map Fin.val := by
    revert x
    decide
  rw [store, registerAt_eq (slots_first ..), some_bind, range, storeRegisters_eq, some_bind,
    gather_first, advanceIndex_eq, Machine.store]

theorem fetchEach_range (i : Word) {k count : Nat} (fits : k + count ≤ 16) (v : Registers) :
    fetchEach m.memory i k (List.range' k count) v =
      some ((List.range' k count).foldl
        (fun v r => v.setIfInBounds r (m.memory.read (i + UInt16.ofNat r))) v) := by
  induction count generalizing k v with
  | zero => rfl
  | succ count ih =>
    rw [List.range'_succ, fetchEach, read_eq, some_bind, put_setIfInBounds v _ (by omega),
      some_bind, ih (by omega), List.foldl_cons]

theorem fetch_eq : fetch m (Operand.slots [.register x]) = some (m.fetch x) := by
  have fetched : (List.range (x.val + 1)).foldl
      (fun v r => v.setIfInBounds r (m.memory.read (m.i + UInt16.ofNat r))) m.v =
      m.v.overwrite x (m.memory.readBlock m.i (x.val + 1)) := by
    ext1 k hk
    have kept : m.v.get ⟨k, hk⟩ = m.v[k] := rfl
    rw [getElem_setEach (fun r => m.memory.read (m.i + UInt16.ofNat r)) _ hk, Registers.overwrite,
      Vector.getElem_ofFn]
    simp only [Memory.readBlock, Fin.le_def, kept]
    grind
  rw [fetch, registerAt_eq (slots_first ..), some_bind, List.range_eq_range',
    fetchEach_range m m.i (by omega), some_bind, ← List.range_eq_range', fetched, advanceIndex_eq,
    Machine.fetch]

theorem exists_flags (v : Registers) :
    ∃ bytes : Vector UInt8 16,
      blit (Vector.replicate 16 0) 0 (x.val + 1) (v.upTo x) = some bytes ∧
        bytes.toList = flags v x := by
  have length := length_upTo v x
  refine ⟨_, blit_eq _ (Nat.zero_le _) x.isLt length, List.ext_getElem ?_ fun k h _ => ?_⟩
  · rw [Vector.length_toList, flags, List.length_append, length, List.length_replicate]
    omega
  · rw [Vector.getElem_toList, Vector.getElem_ofFn]
    simp only [flags, List.getElem_append, length, Fin.getElem_fin, Vector.getElem_replicate,
      List.getElem_replicate]
    grind

theorem saveFlags_eq : saveFlags m (Operand.slots [.register x]) = some (m.saveFlags x) := by
  obtain ⟨bytes, padded, toList⟩ := exists_flags x m.v
  rw [saveFlags, registerAt_eq (slots_first ..), some_bind, Machine.saveFlags]
  cases m.flagsPath with
  | none => rfl
  | some path =>
    simp only [add_eq (show x.val + 1 < 2 ^ 64 by omega), slice_upTo, padded, some_bind, toList]
    cases m.files.write path (flags m.v x) <;> rfl

theorem loadFlags_eq : loadFlags m (Operand.slots [.register x]) = some (m.loadFlags x) := by
  have loaded (bytes : List UInt8) :
      blit m.v 0 (x.val + 1) ((m.v.upTo x).mapIdx fun r _ => bytes.getD r 0) =
        some (m.v.overwrite x bytes) := by
    rw [blit_eq _ (Nat.zero_le _) x.isLt (by rw [List.length_mapIdx, length_upTo]; rfl)]
    refine congrArg some (Vector.ext fun k hk => ?_)
    have kept : m.v.get ⟨k, hk⟩ = m.v[k] := rfl
    simp only [Registers.overwrite, Vector.getElem_ofFn, List.getElem_mapIdx, Fin.le_def, kept]
    grind
  rw [loadFlags, registerAt_eq (slots_first ..), some_bind, Machine.loadFlags]
  cases m.flagsPath with
  | none => rfl
  | some path =>
    dsimp only
    cases m.files.read path with
    | error e => rfl
    | ok bytes =>
      simp only [add_eq (show x.val + 1 < 2 ^ 64 by omega), slice_upTo, loaded, some_bind]

theorem setHires_eq (on : Bool) : setHires m on = some (m.setHires on) := by
  have all (p : Fin 2) : ((m.display.setHires on).setMask 3).selects p = true := by
    change Nat.testBit 3 p.val = true
    revert p
    decide
  have both : ((m.display.setHires on).setMask 3).clear.planes = Vector.replicate 2 .blank := by
    ext1 k hk
    simp only [Display.clear, Display.onSelected, Vector.getElem_mapFinIdx,
      Vector.getElem_replicate]
    exact if_pos (all ⟨k, hk⟩)
  have mask : Fin.ofNat 4 m.display.mask.val = m.display.mask := by
    apply Fin.ext
    exact Nat.mod_eq_of_lt m.display.mask.isLt
  rw [setHires, clear_eq, some_bind, Machine.setHires, Display.switchTo, ← both, Display.setMask,
    mask]
  rfl

end

theorem execute_eq (m : Machine) (i : Instruction) :
    execute m (Operand.slots i.operands) i = some (m.execute i) := by
  cases i with
  | scrollDown n =>
    rw [execute, Instruction.operands, byteAt_nibble (slots_first ..), some_bind, toNat_nibble,
      scrollDown_eq]
    rfl
  | scrollUp n =>
    rw [execute, Instruction.operands, byteAt_nibble (slots_first ..), some_bind, toNat_nibble,
      scrollUp_eq]
    rfl
  | clear => rw [execute, clear_eq]; rfl
  | ret => rfl
  | scrollRight => rw [execute, scrollRight_eq]; rfl
  | scrollLeft => rw [execute, scrollLeft_eq]; rfl
  | exit => rfl
  | lores => exact setHires_eq m false
  | hires => exact setHires_eq m true
  | jump a | call a | setIndex a =>
    rw [execute, Instruction.operands, wordAt_short (slots_first ..)]
    rfl
  | setIndexLong w =>
    rw [execute, Instruction.operands, wordAt_word (slots_first ..)]
    rfl
  | skipEqual x b | skipNotEqual x b => exact skipByte_eq m x b _
  | skipSame x y | skipDifferent x y => exact skipRegister_eq m x y _
  | storeRange x y => exact storeRange_eq m x y
  | fetchRange x y => exact fetchRange_eq m x y
  | load x b =>
    rw [execute, Instruction.operands, byteAt_byte (slots_second ..), some_bind]
    exact setAt_eq m (slots_first ..) b
  | add x b =>
    rw [execute, Instruction.operands, valueAt_eq m (slots_first ..), some_bind,
      byteAt_byte (slots_second ..), some_bind]
    exact setAt_eq m (slots_first ..) _
  | copy x y =>
    rw [execute, Instruction.operands, valueAt_eq m (slots_second ..), some_bind]
    exact setAt_eq m (slots_first ..) _
  | or x y | and x y | xor x y => exact bitwise_eq m x y _
  | addRegister x y | subtract x y | subtractFrom x y => exact flagged_eq m x y _
  | shiftRight x y => exact shift_eq m x y _ lowBit
  | shiftLeft x y => exact shift_eq m x y _ highBit
  | jumpPlus a => exact jumpPlus_eq m a
  | random x mask => exact drawRandom_eq m x mask
  | sprite x y n => exact sprite_eq m x y n
  | skipPressed x =>
    refine (skipKey_eq m x true).trans ?_
    rw [beq_true]
    rfl
  | skipReleased x =>
    refine (skipKey_eq m x false).trans ?_
    rw [beq_false]
    rfl
  | selectPlanes n =>
    rw [execute, Instruction.operands, byteAt_nibble (slots_first ..), some_bind, toNat_nibble]
    rfl
  | audio => exact fetchPattern_eq m
  | readDelay x => exact setAt_eq m (slots_first ..) _
  | awaitKey x => exact awaitKey_eq m x
  | setDelay x | setSound x | setPitch x =>
    rw [execute, Instruction.operands, valueAt_eq m (slots_first ..)]
    rfl
  | addIndex x => exact addIndex_eq m x
  | smallDigit x =>
    rw [execute, Instruction.operands, valueAt_eq m (slots_first ..), some_bind, smallDigit_eq,
      some_bind]
    rfl
  | largeDigit x =>
    rw [execute, Instruction.operands, valueAt_eq m (slots_first ..), some_bind, largeDigit_eq,
      some_bind]
    rfl
  | decimal x => exact decimal_eq m x
  | store x => exact store_eq m x
  | fetch x => exact fetch_eq m x
  | saveFlags x => exact saveFlags_eq m x
  | loadFlags x => exact loadFlags_eq m x

end XoChip.Checked
