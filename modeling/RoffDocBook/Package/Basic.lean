/-! The packages of requests that a source can use, with the static facts about each. -/
namespace RoffDocBook

inductive Package where
  /-- The requests of the formatter itself. -/
  | troff
  /-- Manual pages in the classic style. -/
  | man
  /-- Manual pages marked up by meaning. -/
  | mdoc
  /-- Papers and reports in the manuscript style. -/
  | ms
  /-- Papers in the style of the Berkeley package. -/
  | me
  /-- Memoranda. -/
  | mm
  /-- The preamble of manual pages made from Perl documentation. -/
  | pod2man
  /-- The extensions of the Tcl and Tk manual pages. -/
  | tkman
  /-- Requests for links. -/
  | www
  deriving DecidableEq, Repr, Inhabited

structure Descriptor where
  name : String
  /-- Whether the package determines the kind of document; at most one such package is in use. -/
  exclusive : Bool := false
  /-- The element of the whole document. -/
  topElement : String := ""
  /-- Requests that the source may not define anew. -/
  immutable : List String := []
  /-- Requests that are dropped without a word. -/
  ignored : List String := []
  /-- Requests that are dropped with a remark on portability. -/
  unportable : List String := []
  paragraphBreaks : List String := []
  sectionBreaks : List String := []
  /-- Requests that end the open lists, as far as those are not scoped. -/
  listBreaks : List String := []
  /-- Requests whose lists only their own closing request ends. -/
  scopedLists : List String := []
  /-- Strings that the package defines. -/
  strings : List (String × String) := []
  /-- Requests that may take the place of a user macro that only calls them. -/
  reducible : List String := []

namespace Descriptor

def troff : Descriptor :=
  { name := "troff"
    ignored := ["ad", "af", "bd", "blm", "ce", "cflags", "ch", "color", "cs", "cu", "defcolor", "ecr", "ecs", "ev",
        "fam", "fcolor", "fl", "fp", "fspecial", "ftr", "fzoom", "gcolor", "hc", "hla", "hlm", "hpf", "hw",
        "hy", "hym", "hys", "in", "it", "kern", "lc", "lf", "lg", "linetabs", "ll", "ls", "lsm", "lt", "mc",
        "mk", "na", "ne", "nh", "nm", "nn", "ns", "os", "pc", "pev", "pl", "pm", "pnr", "po", "ps", "ptr", "rj",
        "rs", "rt", "sizes", "special", "ss", "sv", "tc", "ti", "uf", "ul", "vs", "warn", "wh"]
    unportable := ["ec", "eo", "open", "opena", "close", "write", "output", "pso", "sy"]
    paragraphBreaks := ["bp", "sp"] }

def man : Descriptor :=
  { name := "man"
    exclusive := true
    topElement := "refentry"
    immutable := ["B", "BI", "BR", "I", "IB", "IP", "IR", "LP", "P", "PP", "RB", "RE", "RI", "RS", "SH", "SS", "TH",
        "TP"]
    ignored := ["AT", "DT", "PD", "UC", "UN", "hw", "ne"]
    paragraphBreaks := ["HP", "LP", "P", "PP"]
    sectionBreaks := ["SH", "SS"]
    listBreaks := ["HP", "LP", "P", "PP", "SH", "SS"]
    scopedLists := ["RS"]
    strings := [("R", "&#174;"), ("Tm", "&#8482;"), ("lq", "&#8220;"), ("rq", "&#8221;")]
    reducible := ["B", "BI", "BR", "I", "IB", "IP", "IR", "LP", "P", "PP", "RB", "RI", "SH", "SS", "TP"] }

def mdoc : Descriptor :=
  { name := "mdoc"
    exclusive := true
    topElement := "refentry"
    immutable := ["Bd", "Bl", "Dd", "Dt", "Ed", "El", "It", "Nd", "Nm", "Os", "Sh", "Ss"]
    ignored := ["Bk", "Db", "Ek", "Hf", "Sm"]
    paragraphBreaks := ["Lp", "Pp"]
    sectionBreaks := ["Sh", "Ss"]
    scopedLists := ["Bd", "Bl"]
    reducible := ["Lp", "Pp", "Sh", "Ss"] }

def ms : Descriptor :=
  { name := "ms"
    exclusive := true
    topElement := "article"
    immutable := ["AB", "AE", "AI", "AU", "B", "DE", "DS", "FE", "FS", "I", "IP", "LP", "NH", "PP", "QP", "R", "RE",
        "RS", "SH", "TL"]
    ignored := ["1C", "2C", "BT", "CT", "EF", "EH", "HM", "KE", "KF", "KS", "LG", "MC", "NL", "OF", "OH", "P1",
        "PT", "PX", "RP", "SM", "TA", "TM"]
    unportable := ["BX"]
    paragraphBreaks := ["LP", "PP", "QP", "XP"]
    sectionBreaks := ["NH", "SH"]
    listBreaks := ["LP", "PP", "QP", "XP", "NH", "SH"]
    scopedLists := ["RS"]
    strings := [("Q", "&#8220;"), ("U", "&#8221;"), ("-", "&#8212;"), ("*", "")]
    reducible := ["B", "I", "IP", "LP", "NH", "PP", "R", "SH"] }

def me : Descriptor :=
  { name := "me"
    exclusive := true
    topElement := "article"
    immutable := ["(b", "(f", "(l", "(q", ")b", ")f", ")l", ")q", "b", "bu", "i", "ip", "lp", "np", "pp", "r", "sh",
        "uh"]
    ignored := ["++", "1c", "2c", "ba", "bc", "bl", "ef", "eh", "ep", "fo", "he", "hl", "hx", "ix", "ld", "lo",
        "m1", "m2", "m3", "m4", "n1", "n2", "of", "oh", "pa", "re", "ro", "sk", "sz", "th", "tp", "xp"]
    unportable := ["bx"]
    paragraphBreaks := ["lp", "pp"]
    sectionBreaks := ["sh", "uh", "+c", "$c"]
    listBreaks := ["lp", "pp", "sh", "uh", "+c", "$c"]
    scopedLists := ["(q"]
    strings := [("-", "&#8212;"), ("\x7b", ""), ("\x7d", ""), ("*", "")]
    reducible := ["b", "i", "ip", "lp", "pp", "r", "sh", "uh"] }

def mm : Descriptor :=
  { name := "mm"
    exclusive := true
    topElement := "article"
    immutable := ["AL", "AS", "AE", "AU", "B", "BL", "DE", "DL", "DS", "FE", "FS", "H", "HU", "I", "LE", "LI", "ML",
        "P", "R", "RL", "TL", "VL"]
    ignored := ["AV", "AVL", "COVEND", "COVER", "EF", "EH", "EPIC", "FC", "FD", "HC", "HM", "LC", "MT", "NE", "NS",
        "OF", "OH", "OP", "PF", "PGFORM", "PH", "PM", "RP", "SA", "SG", "SK", "SP", "TC", "WC"]
    paragraphBreaks := ["P"]
    sectionBreaks := ["H", "HU"]
    listBreaks := ["H", "HU"]
    strings := [("BU", "&#8226;"), ("EM", "&#8212;"), ("F", "")]
    reducible := ["B", "H", "HU", "I", "LI", "P", "R"] }

def pod2man : Descriptor :=
  { name := "pod2man"
    immutable := ["IX", "Ip", "Sh", "Sp", "Vb", "Ve"]
    strings := [("--", "&#8212;"), ("PI", "&#960;"), ("C+", "C++"), ("C`", "&#8220;"), ("C'", "&#8221;"),
        ("L\"", "&#8220;"), ("R\"", "&#8221;"), ("Aq", "'")] }

def tkman : Descriptor :=
  { name := "tkman"
    immutable := ["AP", "AS", "BE", "BS", "CE", "CS", "DE", "DS", "OP", "SE", "SO", "VE", "VS"]
    ignored := ["AS", "BE", "BS", "VE", "VS"] }

def www : Descriptor :=
  { name := "www"
    immutable := ["FTP", "MTO", "URL"]
    ignored := ["BCL", "BGIMG", "DC", "HTL", "HTML", "HTMLINDEX", "HX", "JOBNAME", "LINKSTYLE", "LK", "NHR",
        "NOLINKS"] }

end Descriptor

namespace Package

def all : List Package :=
  [troff, man, mdoc, ms, me, mm, pod2man, tkman, www]

def descriptor : Package → Descriptor
  | troff => Descriptor.troff
  | man => Descriptor.man
  | mdoc => Descriptor.mdoc
  | ms => Descriptor.ms
  | me => Descriptor.me
  | mm => Descriptor.mm
  | pod2man => Descriptor.pod2man
  | tkman => Descriptor.tkman
  | www => Descriptor.www

def name (package : Package) : String :=
  package.descriptor.name

def exclusive (package : Package) : Bool :=
  package.descriptor.exclusive

def ofName? (name : String) : Option Package :=
  all.find? fun package => package.name == name

end Package

end RoffDocBook
