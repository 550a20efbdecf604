import LavMachine.Character
import LavMachine.Word
set_option autoImplicit false

/-!
The instruction set. Operands come from the bytes after the opcode or from the operand stack, and
results go back on the stack. Bytes from 0x00 are the core instructions, bytes from 0x80 calls into
the runtime library and the peripherals.
-/
namespace LavMachine

inductive Width where
  | char
  | int
  | long
  deriving DecidableEq, Repr

def Width.bytes : Width → Nat
  | .char => 1
  | .int => 2
  | .long => 4

/-- How an instruction finds its cell: a 16-bit operand, with the popped word added when it is
indexed and the frame start when it is framed. -/
structure Place where
  indexed : Bool
  framed : Bool
  deriving DecidableEq, Repr

inductive CellUse where
  | value (w : Width)
  | reference (w : Width)
  | address
  deriving DecidableEq, Repr

inductive Plane where
  | text
  | graph
  | buffer
  deriving DecidableEq, Repr

inductive SystemCall where
  | putChar | getChar | copyString | stringLength | setScreen | updateLcd | delay
  | writeBlock | refresh | textOut
  | rectangle (filled : Bool)
  | clearScreen | random | seedRandom | locate | inkey
  | point | getPoint | line | box | circle | ellipse
  | isClass (k : CharClass)
  | appendString | findChar | compareStrings | findString | toLower | toUpper
  | fillMemory | copyMemory | moveMemory
  | openFile | closeFile | readFile | writeFile | seekFile | tellFile | atEndOfFile | rewindFile
  | getByte | putByte | makeDirectory | deleteFile | changeDirectory
  | ticks | checkKey | checksum | mask | pickFile | getTime | setTime | getWord
  | transform | releaseKey | getBlock | cosine | sine | fillArea
  deriving DecidableEq, Repr

inductive Opcode where
  | nop
  | push (w : Width)
  | cell (place : Place) (use : CellUse)
  | intern
  | base (p : Plane)
  | unary (op : UnaryOp)
  | binary (op : BinaryOp)
  | immediate (op : BinaryOp)
  /-- Adds `delta` to a referenced cell; `old` pushes the value from before. -/
  | increment (delta : Word) (old : Bool)
  | store
  | dereference
  | makeReference
  | drop
  /-- Branches on the top word, which stays on the stack. -/
  | branch (onZero : Bool)
  | jump
  | mark
  | invoke
  | entry
  | leave
  | stop
  | dataInit
  | invalid
  | printf
  | sprintf
  | call (c : SystemCall)
  deriving DecidableEq, Repr

structure Instruction where
  opcode : Opcode
  mnemonic : String
  deriving DecidableEq, Repr

namespace Instruction

def core : Array Instruction := #[
  ⟨.nop, "NOP"⟩,
  ⟨.push .char, "PUSHCHAR"⟩,
  ⟨.push .int, "PUSHINT"⟩,
  ⟨.push .long, "PUSHLONG"⟩,
  ⟨.cell ⟨false, false⟩ (.value .char), "LOADCHAR"⟩,
  ⟨.cell ⟨false, false⟩ (.value .int), "LOADINT"⟩,
  ⟨.cell ⟨false, false⟩ (.value .long), "LOADLONG"⟩,
  ⟨.cell ⟨true, false⟩ (.value .char), "INDEXCHAR"⟩,
  ⟨.cell ⟨true, false⟩ (.value .int), "INDEXINT"⟩,
  ⟨.cell ⟨true, false⟩ (.value .long), "INDEXLONG"⟩,
  ⟨.cell ⟨true, false⟩ (.reference .char), "REFCHAR"⟩,
  ⟨.cell ⟨true, false⟩ (.reference .int), "REFINT"⟩,
  ⟨.cell ⟨true, false⟩ (.reference .long), "REFLONG"⟩,
  ⟨.intern, "INTERN"⟩,
  ⟨.cell ⟨false, true⟩ (.value .char), "LOCALCHAR"⟩,
  ⟨.cell ⟨false, true⟩ (.value .int), "LOCALINT"⟩,
  ⟨.cell ⟨false, true⟩ (.value .long), "LOCALLONG"⟩,
  ⟨.cell ⟨true, true⟩ (.value .char), "LOCALINDEXCHAR"⟩,
  ⟨.cell ⟨true, true⟩ (.value .int), "LOCALINDEXINT"⟩,
  ⟨.cell ⟨true, true⟩ (.value .long), "LOCALINDEXLONG"⟩,
  ⟨.cell ⟨true, true⟩ (.reference .char), "LOCALREFCHAR"⟩,
  ⟨.cell ⟨true, true⟩ (.reference .int), "LOCALREFINT"⟩,
  ⟨.cell ⟨true, true⟩ (.reference .long), "LOCALREFLONG"⟩,
  ⟨.cell ⟨true, false⟩ .address, "ADDR"⟩,
  ⟨.cell ⟨true, true⟩ .address, "LOCALINDEXADDR"⟩,
  ⟨.cell ⟨false, true⟩ .address, "LOCALADDR"⟩,
  ⟨.base .text, "TEXTBASE"⟩,
  ⟨.base .graph, "GRAPHBASE"⟩,
  ⟨.unary .negate, "NEG"⟩,
  ⟨.increment 1 false, "PREINC"⟩,
  ⟨.increment (-1) false, "PREDEC"⟩,
  ⟨.increment 1 true, "POSTINC"⟩,
  ⟨.increment (-1) true, "POSTDEC"⟩,
  ⟨.binary .add, "ADD"⟩,
  ⟨.binary .subtract, "SUB"⟩,
  ⟨.binary .bitAnd, "BITAND"⟩,
  ⟨.binary .bitOr, "BITOR"⟩,
  ⟨.unary .complement, "BITNOT"⟩,
  ⟨.binary .bitXor, "BITXOR"⟩,
  ⟨.binary .both, "AND"⟩,
  ⟨.binary .either, "OR"⟩,
  ⟨.unary .not, "NOT"⟩,
  ⟨.binary .multiply, "MUL"⟩,
  ⟨.binary .divide, "DIV"⟩,
  ⟨.binary .modulo, "MOD"⟩,
  ⟨.binary .shiftLeft, "SHL"⟩,
  ⟨.binary .shiftRight, "SHR"⟩,
  ⟨.binary .equal, "EQ"⟩,
  ⟨.binary .notEqual, "NOTEQ"⟩,
  ⟨.binary .lessEqual, "LTEQ"⟩,
  ⟨.binary .greaterEqual, "GTEQ"⟩,
  ⟨.binary .greater, "GT"⟩,
  ⟨.binary .less, "LT"⟩,
  ⟨.store, "STORE"⟩,
  ⟨.dereference, "DEREF"⟩,
  ⟨.makeReference, "MAKEREF"⟩,
  ⟨.drop, "POP"⟩,
  ⟨.branch true, "JZ"⟩,
  ⟨.branch false, "JNZ"⟩,
  ⟨.jump, "JMP"⟩,
  ⟨.mark, "MARK"⟩,
  ⟨.invoke, "INVOKE"⟩,
  ⟨.entry, "ENTRY"⟩,
  ⟨.leave, "RETURN"⟩,
  ⟨.stop, "END"⟩,
  ⟨.dataInit, "DATAINIT"⟩,
  ⟨.base .buffer, "BUFFERBASE"⟩,
  ⟨.invalid, "INVALID"⟩,
  ⟨.nop, "LOADALL"⟩,
  ⟨.immediate .add, "ADDIMM"⟩,
  ⟨.immediate .subtract, "SUBIMM"⟩,
  ⟨.immediate .multiply, "MULIMM"⟩,
  ⟨.immediate .divide, "DIVIMM"⟩,
  ⟨.immediate .modulo, "MODIMM"⟩,
  ⟨.immediate .shiftLeft, "SHLIMM"⟩,
  ⟨.immediate .shiftRightLogical, "SHRIMM"⟩,
  ⟨.immediate .equal, "EQIMM"⟩,
  ⟨.immediate .notEqual, "NOTEQIMM"⟩,
  ⟨.immediate .greater, "GTIMM"⟩,
  ⟨.immediate .less, "LTIMM"⟩,
  ⟨.immediate .greaterEqual, "GTEQIMM"⟩,
  ⟨.immediate .lessEqual, "LTEQIMM"⟩]

def calls : Array Instruction := #[
  ⟨.call .putChar, "PUTCHAR"⟩,
  ⟨.call .getChar, "GETCHAR"⟩,
  ⟨.printf, "PRINTF"⟩,
  ⟨.call .copyString, "STRCPY"⟩,
  ⟨.call .stringLength, "STRLEN"⟩,
  ⟨.call .setScreen, "SETSCREEN"⟩,
  ⟨.call .updateLcd, "UPDATELCD"⟩,
  ⟨.call .delay, "DELAY"⟩,
  ⟨.call .writeBlock, "WRITEBLOCK"⟩,
  ⟨.call .refresh, "REFRESH"⟩,
  ⟨.call .textOut, "TEXTOUT"⟩,
  ⟨.call (.rectangle true), "BLOCK"⟩,
  ⟨.call (.rectangle false), "RECTANGLE"⟩,
  ⟨.stop, "EXIT"⟩,
  ⟨.call .clearScreen, "CLEARSCREEN"⟩,
  ⟨.unary .absolute, "ABS"⟩,
  ⟨.call .random, "RAND"⟩,
  ⟨.call .seedRandom, "SRAND"⟩,
  ⟨.call .locate, "LOCATE"⟩,
  ⟨.call .inkey, "INKEY"⟩,
  ⟨.call .point, "POINT"⟩,
  ⟨.call .getPoint, "GETPOINT"⟩,
  ⟨.call .line, "LINE"⟩,
  ⟨.call .box, "BOX"⟩,
  ⟨.call .circle, "CIRCLE"⟩,
  ⟨.call .ellipse, "ELLIPSE"⟩,
  ⟨.nop, "BEEP"⟩,
  ⟨.call (.isClass .alphanumeric), "ISALNUM"⟩,
  ⟨.call (.isClass .letter), "ISALPHA"⟩,
  ⟨.call (.isClass .control), "ISCNTRL"⟩,
  ⟨.call (.isClass .digit), "ISDIGIT"⟩,
  ⟨.call (.isClass .graphic), "ISGRAPH"⟩,
  ⟨.call (.isClass .lowercase), "ISLOWER"⟩,
  ⟨.call (.isClass .printable), "ISPRINT"⟩,
  ⟨.call (.isClass .punctuation), "ISPUNCT"⟩,
  ⟨.call (.isClass .space), "ISSPACE"⟩,
  ⟨.call (.isClass .uppercase), "ISUPPER"⟩,
  ⟨.call (.isClass .hexDigit), "ISXDIGIT"⟩,
  ⟨.call .appendString, "STRCAT"⟩,
  ⟨.call .findChar, "STRCHR"⟩,
  ⟨.call .compareStrings, "STRCMP"⟩,
  ⟨.call .findString, "STRSTR"⟩,
  ⟨.call .toLower, "TOLOWER"⟩,
  ⟨.call .toUpper, "TOUPPER"⟩,
  ⟨.call .fillMemory, "MEMSET"⟩,
  ⟨.call .copyMemory, "MEMCPY"⟩,
  ⟨.call .openFile, "FOPEN"⟩,
  ⟨.call .closeFile, "FCLOSE"⟩,
  ⟨.call .readFile, "FREAD"⟩,
  ⟨.call .writeFile, "FWRITE"⟩,
  ⟨.call .seekFile, "FSEEK"⟩,
  ⟨.call .tellFile, "FTELL"⟩,
  ⟨.call .atEndOfFile, "FEOF"⟩,
  ⟨.call .rewindFile, "REWIND"⟩,
  ⟨.call .getByte, "GETC"⟩,
  ⟨.call .putByte, "PUTC"⟩,
  ⟨.sprintf, "SPRINTF"⟩,
  ⟨.call .makeDirectory, "MAKEDIR"⟩,
  ⟨.call .deleteFile, "DELETEFILE"⟩,
  ⟨.call .ticks, "GETMS"⟩,
  ⟨.call .checkKey, "CHECKKEY"⟩,
  ⟨.call .moveMemory, "MEMMOVE"⟩,
  ⟨.call .checksum, "CRC16"⟩,
  ⟨.call .mask, "SECRET"⟩,
  ⟨.call .changeDirectory, "CHDIR"⟩,
  ⟨.call .pickFile, "FILELIST"⟩,
  ⟨.call .getTime, "GETTIME"⟩,
  ⟨.call .setTime, "SETTIME"⟩,
  ⟨.call .getWord, "GETWORD"⟩,
  ⟨.call .transform, "XDRAW"⟩,
  ⟨.call .releaseKey, "RELEASEKEY"⟩,
  ⟨.call .getBlock, "GETBLOCK"⟩,
  ⟨.call .cosine, "COS"⟩,
  ⟨.call .sine, "SIN"⟩,
  ⟨.call .fillArea, "FILLAREA"⟩]

def ofByte? (b : UInt8) : Option Instruction :=
  if b < 0x80 then core[b.toNat]? else calls[b.toNat - 0x80]?

end Instruction
end LavMachine
