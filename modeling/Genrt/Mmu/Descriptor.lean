import Genrt.Memory.UserTables

/-!
# Descriptors

An entry of a translation table is a word of 64 bits. Bits 12 to 47 hold a physical
address, the other bits say what the entry is and what it allows. An entry of an upper
table leads to a table; an entry of the second level may instead be a block of two
megabytes, and an entry of the lowest level is a page.
-/

namespace Genrt.Mmu

def tableEntries : Nat := 512

/-- `BLOCK_SIZE_2M`. -/
def blockSize : Nat := 2 * 1024 * 1024

def kernelHvaOffset : Nat := 0xffff000000000000

def descValid : Nat := 1 <<< 0

def descTable : Nat := 1 <<< 1

def descApUser : Nat := 1 <<< 6

def descApRo : Nat := 1 <<< 7

def descShInner : Nat := 0b11 <<< 8

def descAf : Nat := 1 <<< 10

def descNg : Nat := 1 <<< 11

def descPxn : Nat := 1 <<< 53

def descUxn : Nat := 1 <<< 54

def descAddrMask : Nat := 0x0000fffffffff000

def attrDeviceNgRnE : Nat := 0

def attrNormalWb : Nat := 1

def attrNormalNc : Nat := 2

/-- `VmMemoryAttr`. -/
inductive VmMemoryAttr where
  | deviceNgRnE
  | normalWriteBack
  | normalNonCacheable
deriving DecidableEq, Repr

def attrToIndex : VmMemoryAttr → Nat
  | .deviceNgRnE => attrDeviceNgRnE
  | .normalWriteBack => attrNormalWb
  | .normalNonCacheable => attrNormalNc

/-- `VmFlags`. -/
structure VmFlags where
  write : Bool
  execute : Bool
  user : Bool
  global : Bool
deriving DecidableEq, Repr

def tableDesc (pa : Nat) : Nat := (pa &&& descAddrMask) ||| descValid ||| descTable

def blockDesc (pa attrIndex : Nat) (flags : VmFlags) : Nat :=
  let desc := (pa &&& descAddrMask) ||| descValid ||| descAf ||| (attrIndex <<< 2)
  let desc :=
    if attrIndex = attrNormalWb ∨ attrIndex = attrNormalNc then desc ||| descShInner else desc
  let desc := if flags.write then desc else desc ||| descApRo
  let desc := if flags.user then desc ||| descApUser else desc
  let desc := if flags.global then desc else desc ||| descNg
  if flags.execute then desc else desc ||| (descPxn ||| descUxn)

def userPageDesc (pa : Nat) (flags : UserMapFlags) : Nat :=
  let desc := (pa &&& descAddrMask) ||| descValid ||| descTable ||| descAf ||| descShInner |||
    descApUser ||| descNg ||| (attrNormalWb <<< 2)
  let desc := if flags.write then desc else desc ||| descApRo
  if flags.execute then desc ||| descPxn else desc ||| (descPxn ||| descUxn)

def isValid (desc : Nat) : Bool := desc &&& descValid != 0

def isTableDesc (desc : Nat) : Bool :=
  desc &&& (descValid ||| descTable) == (descValid ||| descTable)

def isBlockDesc (desc : Nat) : Bool := desc &&& descValid != 0 && desc &&& descTable == 0

def isPageDesc (desc : Nat) : Bool :=
  desc &&& (descValid ||| descTable) == (descValid ||| descTable)

def descPa (desc : Nat) : Nat := desc &&& descAddrMask

/-- The table that an entry leads to. -/
def tableOf (desc : Nat) : Option Nat := if isTableDesc desc then some (descPa desc) else none

def l3Index (va : Nat) : Nat := va / 2 ^ 12 % 512

def userMappingInfoFromDesc (desc va : Nat) : UserMappingInfo :=
  let user := desc &&& descApUser != 0
  let accessFlag := desc &&& descAf != 0
  { pa := descPa desc + va % pageSize
    user := user
    readable := user && accessFlag
    writable := user && accessFlag && desc &&& descApRo == 0
    executable := user && desc &&& descUxn == 0 }

/-! ### The fields of a descriptor -/

/-- Addresses that a descriptor can hold. -/
def Addressable (pa : Nat) : Prop := pa % pageSize = 0 ∧ pa < 2 ^ 48

instance (pa : Nat) : Decidable (Addressable pa) := inferInstanceAs (Decidable (_ ∧ _))

variable {pa : Nat}

theorem Addressable.and_mask (held : Addressable pa) : pa &&& descAddrMask = pa := by
  obtain ⟨aligned, bound⟩ := held
  simp only [pageSize] at aligned
  obtain ⟨q, rfl⟩ : ∃ q, pa = q <<< 12 := ⟨pa / 4096, by rw [Nat.shiftLeft_eq]; omega⟩
  have small : q < 2 ^ 36 := by rw [Nat.shiftLeft_eq] at bound; omega
  have mask : descAddrMask = (2 ^ 36 - 1) <<< 12 := by decide
  rw [mask, ← Nat.shiftLeft_and_distrib, Nat.and_two_pow_sub_one_eq_mod, Nat.mod_eq_of_lt small]

theorem descPa_or {rest : Nat} (apart : rest &&& descAddrMask = 0) :
    descPa ((pa &&& descAddrMask) ||| rest) = pa &&& descAddrMask := by
  rw [descPa, Nat.and_or_distrib_right, apart, Nat.or_zero, Nat.and_assoc, Nat.and_self]

/-- Bits outside the address do not depend on it. -/
theorem flag_or {rest bits : Nat} (apart : descAddrMask &&& bits = 0) :
    ((pa &&& descAddrMask) ||| rest) &&& bits = rest &&& bits := by
  rw [Nat.and_or_distrib_right, Nat.and_assoc, apart, Nat.and_zero, Nat.zero_or]

theorem tableDesc_eq (pa : Nat) :
    tableDesc pa = (pa &&& descAddrMask) ||| (descValid ||| descTable) := Nat.or_assoc ..

theorem userPageDesc_eq (pa : Nat) (flags : UserMapFlags) :
    userPageDesc pa flags = (pa &&& descAddrMask) ||| userPageDesc 0 flags := by
  obtain ⟨write, execute⟩ := flags
  cases write <;> cases execute <;>
    simp only [userPageDesc, Nat.or_assoc, Nat.zero_and, Nat.zero_or, Bool.false_eq_true, if_true,
      if_false]

@[simp]
theorem tableOf_zero : tableOf 0 = none := by decide

theorem tableOf_tableDesc (held : Addressable pa) : tableOf (tableDesc pa) = some pa := by
  have apart : (descValid ||| descTable) &&& descAddrMask = 0 := by decide
  have outside : descAddrMask &&& (descValid ||| descTable) = 0 := by decide
  have table : isTableDesc (tableDesc pa) = true := by
    rw [isTableDesc, tableDesc_eq, flag_or outside, Nat.and_self]
    exact beq_self_eq_true _
  rw [tableOf, if_pos table, tableDesc_eq, descPa_or apart, held.and_mask]

variable {desc : Nat}

theorem isTableDesc_valid (table : isTableDesc desc) : isValid desc := by
  have bits : desc &&& (descValid ||| descTable) = descValid ||| descTable := eq_of_beq table
  have low : desc &&& descValid = descValid := by
    calc desc &&& descValid = desc &&& (descValid ||| descTable) &&& descValid := by
          rw [Nat.and_assoc]; rfl
      _ = descValid := by rw [bits]; rfl
  rw [isValid, low]
  rfl

theorem tableOf_of_invalid (invalid : ¬ isValid desc) : tableOf desc = none :=
  if_neg fun table => invalid (isTableDesc_valid table)

theorem isPageDesc_userPageDesc (pa : Nat) (flags : UserMapFlags) :
    isPageDesc (userPageDesc pa flags) = true := by
  have outside : descAddrMask &&& (descValid ||| descTable) = 0 := by decide
  rw [isPageDesc, userPageDesc_eq, flag_or outside]
  obtain ⟨write, execute⟩ := flags
  cases write <;> cases execute <;> decide

/-- The translation of an address in a page. -/
def pageInfo (page : UserPage) (va : Nat) : UserMappingInfo :=
  ⟨page.frame + va % pageSize, true, true, page.flags.write, page.flags.execute⟩

theorem info_userPageDesc (held : Addressable pa) (flags : UserMapFlags) (va : Nat) :
    userMappingInfoFromDesc (userPageDesc pa flags) va = pageInfo ⟨pa, flags⟩ va := by
  have apart : userPageDesc 0 flags &&& descAddrMask = 0 := by
    obtain ⟨write, execute⟩ := flags
    cases write <;> cases execute <;> decide
  have address : descPa (userPageDesc pa flags) = pa := by
    rw [userPageDesc_eq, descPa_or apart, held.and_mask]
  have bits : ∀ bits, descAddrMask &&& bits = 0 →
      userPageDesc pa flags &&& bits = userPageDesc 0 flags &&& bits := fun bits outside => by
    rw [userPageDesc_eq, flag_or outside]
  simp only [userMappingInfoFromDesc, address, pageInfo, bits descApUser (by decide),
    bits descAf (by decide), bits descApRo (by decide), bits descUxn (by decide)]
  obtain ⟨write, execute⟩ := flags
  cases write <;> cases execute <;> simp only [UserMappingInfo.mk.injEq, true_and] <;> decide

/-! ### Blocks -/

theorem isBlockDesc_valid (block : isBlockDesc desc = true) : isValid desc = true :=
  (Bool.and_eq_true_iff.mp block).1

theorem blockDesc_eq (pa attrIndex : Nat) (flags : VmFlags) :
    blockDesc pa attrIndex flags = (pa &&& descAddrMask) ||| blockDesc 0 attrIndex flags := by
  obtain ⟨write, execute, user, global⟩ := flags
  by_cases inner : attrIndex = attrNormalWb ∨ attrIndex = attrNormalNc <;>
    cases write <;> cases execute <;> cases user <;> cases global <;>
    simp only [blockDesc, inner, Nat.or_assoc, Nat.zero_and, Nat.zero_or, Bool.false_eq_true,
      if_true, if_false]

/-- The bits of a block descriptor besides the address. -/
theorem blockDesc_bits : ∀ (attrIndex : Fin 8) (write execute user global : Bool),
    isBlockDesc (blockDesc 0 attrIndex ⟨write, execute, user, global⟩) = true ∧
      blockDesc 0 attrIndex ⟨write, execute, user, global⟩ &&& descAddrMask = 0 ∧
      blockDesc 0 attrIndex ⟨write, execute, user, global⟩ >>> 2 &&& 0b111 = attrIndex := by
  decide

variable {pa attrIndex : Nat} {flags : VmFlags}

theorem isBlockDesc_blockDesc (small : attrIndex < 8) :
    isBlockDesc (blockDesc pa attrIndex flags) = true := by
  have valid : descAddrMask &&& descValid = 0 := by decide
  have table : descAddrMask &&& descTable = 0 := by decide
  rw [isBlockDesc, blockDesc_eq, flag_or valid, flag_or table]
  exact (blockDesc_bits ⟨attrIndex, small⟩ ..).1

theorem descPa_blockDesc (small : attrIndex < 8) :
    descPa (blockDesc pa attrIndex flags) = pa &&& descAddrMask := by
  rw [blockDesc_eq, descPa_or (blockDesc_bits ⟨attrIndex, small⟩ ..).2.1]

theorem attrIndex_blockDesc (small : attrIndex < 8) :
    blockDesc pa attrIndex flags >>> 2 &&& 0b111 = attrIndex := by
  have clear : descAddrMask >>> 2 &&& 0b111 = 0 := by decide
  rw [blockDesc_eq, Nat.shiftRight_or_distrib, Nat.and_or_distrib_right, Nat.shiftRight_and_distrib,
    Nat.and_assoc, clear, Nat.and_zero, Nat.zero_or]
  exact (blockDesc_bits ⟨attrIndex, small⟩ ..).2.2

theorem attrToIndex_lt (attr : VmMemoryAttr) : attrToIndex attr < 8 := by
  cases attr <;> decide

end Genrt.Mmu
