/-!
# Powers

Powers of natural numbers and of integers are everywhere those of the core library, which
the decision procedures and the kernel know, also next to a library that brings its own.
-/

attribute [instance (high), default_instance (high + 1)] instPowNat
