namespace SmallLisp

structure Ink where
  colored : Bool

namespace Ink

def bold : String := "\x1b[1m"

def red : String := "\x1b[91m"

def green : String := "\x1b[92m"

def plain : String := ""

def reset : String := "\x1b[0m"

def tint (ink : Ink) (text color : String) : String :=
  if ink.colored then color ++ text ++ reset else text

def heading (ink : Ink) (text color : String) : String :=
  if ink.colored then bold ++ color ++ text ++ reset else text

def complaint (ink : Ink) (title message : String) : String :=
  ink.heading title red ++ " " ++ ink.tint message red

end Ink

end SmallLisp
