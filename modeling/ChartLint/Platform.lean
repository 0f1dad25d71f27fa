/-!
# Platform tables

The closed lists of names that one release of the platform knows. The rules and the dry run read
these tables and hold no lists of their own, so another release is other data.
-/

namespace ChartLint

/-- What a platform release knows by name. -/
structure Platform where
  version : String
  /-- Factory methods of indicators. -/
  indicators : List String
  drawMethods : List String
  /-- The drawing methods that leave one object per bar and tag. -/
  perBarDrawMethods : List String
  /-- Tags that are meant to be drawn over. -/
  fixedDrawTags : List String
  states : List String
  requiredUsings : List String
  /-- The usual value types of a series. -/
  seriesTypes : List String
  /-- The namespace segment that goes with a base class. -/
  baseNamespaces : List (String × String)
deriving DecidableEq, Repr

namespace Platform

/-- The namespace segment that the platform expects for a base class; the last entry for a base
counts, and a base without entry has the empty segment. -/
def namespaceFor (p : Platform) (base : String) : String :=
  (p.baseNamespaces.reverse.lookup base).getD ""

/-- The members of a table that is a set, sorted and without repetition. -/
def sortedSet (names : List String) : List String :=
  (names.mergeSort (fun a b => a ≤ b)).eraseDups

/-- The tables of release 8. -/
def nt8 : Platform where
  version := "NT8"
  indicators :=
    ["RSI", "MACD", "SMA", "EMA", "ATR", "Swing", "Bollinger", "Stochastics", "VWAP", "ADX", "CCI",
     "TEMA", "WMA", "HMA", "DEMA", "OBV", "MFI", "VOL", "DM", "DonchianChannel", "KeltnerChannel",
     "ParabolicSAR", "WilliamsR", "Momentum", "ROC", "StdDev", "LinReg", "MAX", "MIN", "SUM"]
  drawMethods :=
    ["ArrowUp", "ArrowDown", "Text", "TextFixed", "Line", "HorizontalLine", "VerticalLine",
     "Rectangle", "Region", "TriangleUp", "TriangleDown", "Diamond", "Dot", "Square", "Ray", "Arc",
     "Ellipse", "ExtendedLine", "AndrewsPitchfork", "FibonacciCircle", "FibonacciExtensions",
     "FibonacciRetracements", "FibonacciTimeExtensions", "GannFan", "RegressionChannel",
     "TrendChannel"]
  perBarDrawMethods :=
    ["ArrowUp", "ArrowDown", "Text", "TriangleUp", "TriangleDown", "Diamond", "Dot", "Square"]
  fixedDrawTags := ["infoPanel", "info", "status", "waiting", "panel", "dashboard"]
  states :=
    ["SetDefaults", "Configure", "Active", "DataLoaded", "Historical", "Transition", "Realtime",
     "Terminated", "Finalized"]
  requiredUsings := ["System"]
  seriesTypes := ["double", "bool", "int", "float", "long", "DateTime"]
  baseNamespaces := [("Indicator", "Indicators"), ("Strategy", "Strategies")]

end Platform

end ChartLint
