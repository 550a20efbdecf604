import LavMachine.Word
set_option autoImplicit false

namespace LavMachine.Random

def next (seed : Word) : Word := seed * 22695477 + 1

def output (seed : Word) : Word := (seed >>> 16) &&& 0x7fff

end LavMachine.Random
