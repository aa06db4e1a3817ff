/-!
# Powers

Bounds and scales are powers of naturals and integers. These are the powers that come with the two types,
also where a monoid would give them another one.
-/

attribute [instance (high + 10000), default_instance (high + 10000)] instPowNat
