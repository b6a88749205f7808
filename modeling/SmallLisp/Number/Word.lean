namespace SmallLisp.Number

def intMin : Int := -0x80000000

def intMax : Int := 0x7fffffff

/-- The integer of 32 bits, in two's complement, that agrees with `n` modulo
`2 ^ 32`. -/
def wrap (n : Int) : Int := (n - intMin) % 0x100000000 + intMin

theorem wrap_mem (n : Int) : intMin ≤ wrap n ∧ wrap n ≤ intMax := by
  unfold wrap intMin intMax
  omega

theorem wrap_eq_self {n : Int} (hl : intMin ≤ n) (hu : n ≤ intMax) : wrap n = n := by
  unfold intMin at hl
  unfold intMax at hu
  unfold wrap intMin
  omega

end SmallLisp.Number
