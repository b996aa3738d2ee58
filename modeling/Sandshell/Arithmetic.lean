/-!
# Arithmetic

In the definitions a power or a sum is the one of the core language, also where a library with an
algebra of its own is imported beside them.
-/

namespace Sandshell.Arithmetic

attribute [scoped instance (high)] instPowNat Zero.ofOfNat0

end Sandshell.Arithmetic
