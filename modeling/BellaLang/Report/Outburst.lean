/-!
Outbursts: what is exclaimed before bad news.

An outburst has three parts, each picked from a list.  The picks come from outside, one number after
the other, and each number is taken modulo the length of its list; so any source of numbers will do,
random ones among them.
-/

namespace BellaLang

/-! ## What there is to pick from -/

/-- How an outburst begins; often it does not. -/
def particles : List String := ["Oh, ", "Well, ", "Aw, ", "", ""]

/-- What is exclaimed. -/
def mincedOaths : List String :=
  ["Ack", "ARGH", "Blargh", "Confound it", "Crud", "Curses", "Crikey", "Dag Nabbit", "Drat",
   "Fiddlesticks", "Good Grief", "Great Scott", "Heavens", "Jeepers", "Mercy", "Nuts", "Rats",
   "Woe is me"]

/-- How it ends. -/
def resignations : List String :=
  ["I am undone.", "I cannot continue.", "I have no idea what the right answer is.",
   "Bella needs to ask for help."]

/-! ## Picking -/

/-- Numbers from outside, and how many of them have been used. -/
structure Picks where
  number : Nat → Nat
  used : Nat

/-- The member of a list that the next number picks. -/
def Picks.pick (picks : Picks) (options : List String) : String × Picks :=
  (options.getD (picks.number picks.used % options.length) "",
    { picks with used := picks.used + 1 })

/-- An outburst; it uses up three numbers. -/
def Picks.outburst (picks : Picks) : String × Picks :=
  let (particle, picks) := picks.pick particles
  let (oath, picks) := picks.pick mincedOaths
  let (resignation, picks) := picks.pick resignations
  (particle ++ oath ++ "! " ++ resignation, picks)

/-- Numbers that come around again and again; zeros, if there are none. -/
def Picks.cycle (numbers : List Nat) : Picks :=
  ⟨fun n => numbers.getD (n % numbers.length) 0, 0⟩

end BellaLang
