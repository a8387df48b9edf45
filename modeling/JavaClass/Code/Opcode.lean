/-
The instruction set. An instruction is announced by one byte; the table gives each its mnemonic
and the number of operand bytes that follow. The switches and the wide forms have no fixed length
and stand in the table with none; `JavaClass.Code.Decoding` reads them by their own rules.
-/

namespace JavaClass.Opcode

/-! ### The table -/

/-- Mnemonics and numbers of operand bytes, in the order of the opcodes. -/
def table : Array (String × Nat) :=
  #[
    -- Constants
    ("nop", 0), ("aconst_null", 0), ("iconst_m1", 0), ("iconst_0", 0), ("iconst_1", 0),
    ("iconst_2", 0), ("iconst_3", 0), ("iconst_4", 0), ("iconst_5", 0), ("lconst_0", 0),
    ("lconst_1", 0), ("fconst_0", 0), ("fconst_1", 0), ("fconst_2", 0), ("dconst_0", 0),
    ("dconst_1", 0), ("bipush", 1), ("sipush", 2), ("ldc", 1), ("ldc_w", 2), ("ldc2_w", 2),
    -- Loads
    ("iload", 1), ("lload", 1), ("fload", 1), ("dload", 1), ("aload", 1), ("iload_0", 0),
    ("iload_1", 0), ("iload_2", 0), ("iload_3", 0), ("lload_0", 0), ("lload_1", 0),
    ("lload_2", 0), ("lload_3", 0), ("fload_0", 0), ("fload_1", 0), ("fload_2", 0),
    ("fload_3", 0), ("dload_0", 0), ("dload_1", 0), ("dload_2", 0), ("dload_3", 0),
    ("aload_0", 0), ("aload_1", 0), ("aload_2", 0), ("aload_3", 0), ("iaload", 0), ("laload", 0),
    ("faload", 0), ("daload", 0), ("aaload", 0), ("baload", 0), ("caload", 0), ("saload", 0),
    -- Stores
    ("istore", 1), ("lstore", 1), ("fstore", 1), ("dstore", 1), ("astore", 1), ("istore_0", 0),
    ("istore_1", 0), ("istore_2", 0), ("istore_3", 0), ("lstore_0", 0), ("lstore_1", 0),
    ("lstore_2", 0), ("lstore_3", 0), ("fstore_0", 0), ("fstore_1", 0), ("fstore_2", 0),
    ("fstore_3", 0), ("dstore_0", 0), ("dstore_1", 0), ("dstore_2", 0), ("dstore_3", 0),
    ("astore_0", 0), ("astore_1", 0), ("astore_2", 0), ("astore_3", 0), ("iastore", 0),
    ("lastore", 0), ("fastore", 0), ("dastore", 0), ("aastore", 0), ("bastore", 0),
    ("castore", 0), ("sastore", 0),
    -- The stack
    ("pop", 0), ("pop2", 0), ("dup", 0), ("dup_x1", 0), ("dup_x2", 0), ("dup2", 0),
    ("dup2_x1", 0), ("dup2_x2", 0), ("swap", 0),
    -- Arithmetic
    ("iadd", 0), ("ladd", 0), ("fadd", 0), ("dadd", 0), ("isub", 0), ("lsub", 0), ("fsub", 0),
    ("dsub", 0), ("imul", 0), ("lmul", 0), ("fmul", 0), ("dmul", 0), ("idiv", 0), ("ldiv", 0),
    ("fdiv", 0), ("ddiv", 0), ("irem", 0), ("lrem", 0), ("frem", 0), ("drem", 0), ("ineg", 0),
    ("lneg", 0), ("fneg", 0), ("dneg", 0), ("ishl", 0), ("lshl", 0), ("ishr", 0), ("lshr", 0),
    ("iushr", 0), ("lushr", 0), ("iand", 0), ("land", 0), ("ior", 0), ("lor", 0), ("ixor", 0),
    ("lxor", 0), ("iinc", 2),
    -- Conversions
    ("i2l", 0), ("i2f", 0), ("i2d", 0), ("l2i", 0), ("l2f", 0), ("l2d", 0), ("f2i", 0),
    ("f2l", 0), ("f2d", 0), ("d2i", 0), ("d2l", 0), ("d2f", 0), ("i2b", 0), ("i2c", 0),
    ("i2s", 0),
    -- Comparisons and conditional branches
    ("lcmp", 0), ("fcmpl", 0), ("fcmpg", 0), ("dcmpl", 0), ("dcmpg", 0), ("ifeq", 2), ("ifne", 2),
    ("iflt", 2), ("ifge", 2), ("ifgt", 2), ("ifle", 2), ("if_icmpeq", 2), ("if_icmpne", 2),
    ("if_icmplt", 2), ("if_icmpge", 2), ("if_icmpgt", 2), ("if_icmple", 2), ("if_acmpeq", 2),
    ("if_acmpne", 2),
    -- Control
    ("goto", 2), ("jsr", 2), ("ret", 1), ("tableswitch", 0), ("lookupswitch", 0), ("ireturn", 0),
    ("lreturn", 0), ("freturn", 0), ("dreturn", 0), ("areturn", 0), ("return", 0),
    -- References
    ("getstatic", 2), ("putstatic", 2), ("getfield", 2), ("putfield", 2), ("invokevirtual", 2),
    ("invokespecial", 2), ("invokestatic", 2), ("invokeinterface", 4), ("invokedynamic", 4),
    ("new", 2), ("newarray", 1), ("anewarray", 2), ("arraylength", 0), ("athrow", 0),
    ("checkcast", 2), ("instanceof", 2), ("monitorenter", 0), ("monitorexit", 0),
    -- Extensions
    ("wide", 0), ("multianewarray", 3), ("ifnull", 2), ("ifnonnull", 2), ("goto_w", 4),
    ("jsr_w", 4)
  ]

/-- The name of an instruction. -/
def mnemonic? (opcode : UInt8) : Option String := table[opcode.toNat]?.map Prod.fst

/-- How many operand bytes follow, for instructions of fixed length. -/
def operandLength? (opcode : UInt8) : Option Nat := table[opcode.toNat]?.map Prod.snd

/-- The name of an instruction, for listings. -/
def label (opcode : UInt8) : String := (mnemonic? opcode).getD "???"

/-! ### The instructions that are told apart -/

def aconstNull : UInt8 := 0x01
def iconst0 : UInt8 := 0x03
def bipush : UInt8 := 0x10
def sipush : UInt8 := 0x11
def ldc : UInt8 := 0x12
def ldcW : UInt8 := 0x13
def ldc2W : UInt8 := 0x14
def iload : UInt8 := 0x15
def aload : UInt8 := 0x19
def iload0 : UInt8 := 0x1a
def aload0 : UInt8 := 0x2a
def istore : UInt8 := 0x36
def astore : UInt8 := 0x3a
def istore0 : UInt8 := 0x3b
def pop : UInt8 := 0x57
def pop2 : UInt8 := 0x58
def dup : UInt8 := 0x59
def iinc : UInt8 := 0x84
def ifeq : UInt8 := 0x99
def ifAcmpne : UInt8 := 0xa6
def goto : UInt8 := 0xa7
def jsr : UInt8 := 0xa8
def ret : UInt8 := 0xa9
def tableswitch : UInt8 := 0xaa
def lookupswitch : UInt8 := 0xab
def ireturn : UInt8 := 0xac
def returnVoid : UInt8 := 0xb1
def getstatic : UInt8 := 0xb2
def putstatic : UInt8 := 0xb3
def getfield : UInt8 := 0xb4
def putfield : UInt8 := 0xb5
def invokevirtual : UInt8 := 0xb6
def invokespecial : UInt8 := 0xb7
def invokestatic : UInt8 := 0xb8
def invokeinterface : UInt8 := 0xb9
def invokedynamic : UInt8 := 0xba
def newInstance : UInt8 := 0xbb
def anewarray : UInt8 := 0xbd
def checkcast : UInt8 := 0xc0
def instanceOf : UInt8 := 0xc1
def wide : UInt8 := 0xc4
def multianewarray : UInt8 := 0xc5
def ifnull : UInt8 := 0xc6
def ifnonnull : UInt8 := 0xc7
def gotoW : UInt8 := 0xc8
def jsrW : UInt8 := 0xc9

/-! ### Branches -/

/-- Branches that may fall through, all with a displacement of sixteen bits. -/
def isConditional (opcode : UInt8) : Bool :=
  (ifeq ≤ opcode && opcode ≤ ifAcmpne) || opcode == ifnull || opcode == ifnonnull

/-- Branches with a displacement of sixteen bits. -/
def isShortBranch (opcode : UInt8) : Bool :=
  isConditional opcode || opcode == goto || opcode == jsr

/-- Branches with a displacement of thirty-two bits. -/
def isWideBranch (opcode : UInt8) : Bool := opcode == gotoW || opcode == jsrW

/-- The conditional branch that is taken exactly when the given one is not. Opposites are
neighbours: those from `ifeq` on pair up from an odd opcode, the tests for null from an even
one. -/
def opposite? (opcode : UInt8) : Option UInt8 :=
  if ifeq ≤ opcode && opcode ≤ ifAcmpne then some (((opcode - ifeq) ^^^ 1) + ifeq)
  else if opcode == ifnull || opcode == ifnonnull then some (opcode ^^^ 1)
  else none

/-- The branch with the wider displacement that does the same. -/
def widened (opcode : UInt8) : UInt8 := if opcode == jsr then jsrW else gotoW

/-- Instructions with a form for local variables past 255. -/
def isWidenable (opcode : UInt8) : Bool :=
  (iload ≤ opcode && opcode ≤ aload) || (istore ≤ opcode && opcode ≤ astore) ||
    opcode == ret || opcode == iinc

/-! ### Constants -/

/-- Instructions whose first two operand bytes are an index into the constant pool. -/
def hasPoolIndex (opcode : UInt8) : Bool :=
  opcode == ldcW || opcode == ldc2W || (getstatic ≤ opcode && opcode ≤ invokedynamic) ||
    opcode == newInstance || opcode == anewarray || opcode == checkcast ||
    opcode == instanceOf || opcode == multianewarray

end JavaClass.Opcode
