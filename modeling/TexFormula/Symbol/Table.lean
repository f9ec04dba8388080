import TexFormula.Node.Marks

/-! Symbols: commands that stand for a glyph. The class of a symbol decides which element it
becomes, and its marks go to the node. The symbols are listed in groups of one class and the same
marks, and no name is in two groups. -/
namespace TexFormula

/-- The classes of symbols. -/
inductive Symbol.Class where
  | letter
  | binary
  | relation
  | opener
  | closer
  | large
  | punctuation
  | other
deriving DecidableEq, Repr, Inhabited

/-- A symbol. -/
structure Symbol where
  glyph : String
  cls : Symbol.Class
  marks : Marks := {}
deriving DecidableEq, Repr, Inhabited

namespace Symbol

/-- Whether symbols of a class are operators. -/
def Class.isOperator : Class → Bool
  | letter | other => false
  | _ => true

end Symbol

end TexFormula

/-! ### Letters -/

namespace TexFormula.Symbol

/-- Letters that take the variant of the text around them. -/
def letters : List (String × String) :=
  [("BbbPi", "ℿ"), ("Digamma", "Ϝ"), ("Elzxh", "ħ"), ("Im", "ℑ"), ("Koppa", "Ϟ"), ("Re", "ℜ"),
   ("Sampi", "Ϡ"), ("Stigma", "Ϛ"), ("aleph", "ℵ"), ("alpha", "α"), ("beta", "β"), ("beth", "ℶ"),
   ("chi", "χ"), ("daleth", "ℸ"), ("delta", "δ"), ("digamma", "ϝ"), ("ell", "ℓ"),
   ("epsilon", "ϵ"), ("eta", "η"), ("gamma", "γ"), ("gimel", "ℷ"), ("hbar", "ℏ"), ("hslash", "ℏ"),
   ("imath", "ı"), ("iota", "ι"), ("jmath", "ȷ"), ("kappa", "κ"), ("lambda", "λ"), ("mu", "μ"),
   ("nu", "ν"), ("omega", "ω"), ("phi", "ϕ"), ("pi", "π"), ("psi", "ψ"), ("rho", "ρ"),
   ("sigma", "σ"), ("tau", "τ"), ("textTheta", "ϴ"), ("theta", "θ"), ("upsilon", "υ"),
   ("varkappa", "ϰ"), ("varphi", "φ"), ("varpi", "ϖ"), ("varrho", "ϱ"), ("varsigma", "ς"),
   ("vartheta", "ϑ"), ("wp", "℘"), ("xi", "ξ"), ("zeta", "ζ")]

/-- Letters that stand upright unless a variant is asked for: the Greek capitals. -/
def uprightLetters : List (String × String) :=
  [("Alpha", "Α"), ("Beta", "Β"), ("Chi", "Χ"), ("Delta", "Δ"), ("Epsilon", "Ε"), ("Eta", "Η"),
   ("Gamma", "Γ"), ("Iota", "Ι"), ("Kappa", "Κ"), ("Lambda", "Λ"), ("Omega", "Ω"), ("Phi", "Φ"),
   ("Pi", "Π"), ("Psi", "Ψ"), ("Rho", "Ρ"), ("Sigma", "Σ"), ("Tau", "Τ"), ("Theta", "Θ"),
   ("Upsilon", "Υ"), ("Xi", "Ξ"), ("Zeta", "Ζ")]

/-! ### Signs -/

/-- Signs of all kinds. -/
def signs : List (String × String) :=
  [("-", "\u00ad"), ("Angle", "⦜"), ("Colon", "∷"), ("ElzLap", "⧊"), ("Elzbtdl", "ɬ"),
   ("Elzcirfb", "◒"), ("Elzcirfl", "◐"), ("Elzcirfr", "◑"), ("Elzclomeg", "ɷ"), ("Elzddfnc", "⦙"),
   ("Elzdefas", "⧋"), ("Elzdshfnc", "┆"), ("Elzdyogh", "ʤ"), ("Elzesh", "ʃ"), ("Elzfhr", "ɾ"),
   ("Elzglst", "ʔ"), ("Elzhlmrk", "ˑ"), ("Elzinglst", "ʖ"), ("Elzinvv", "ʌ"), ("Elzinvw", "ʍ"),
   ("Elzlmrk", "ː"), ("Elzlow", "˕"), ("Elzlpargt", "⦠"), ("Elzltlmr", "ɱ"), ("Elzltln", "ɲ"),
   ("Elzopeno", "ɔ"), ("Elzpalh", "\u0321"), ("Elzpbgam", "ɤ"), ("Elzpes", "₧"),
   ("Elzpgamma", "ɣ"), ("Elzpscrv", "ʋ"), ("Elzpupsil", "ʊ"), ("Elzrais", "˔"),
   ("Elzreapos", "‛"), ("Elzreglst", "ʕ"), ("Elzrl", "ɼ"), ("Elzrtld", "ɖ"), ("Elzrtll", "ɭ"),
   ("Elzrtln", "ɳ"), ("Elzrtlr", "ɽ"), ("Elzrtls", "ʂ"), ("Elzrtlt", "ʈ"), ("Elzrtlz", "ʐ"),
   ("Elzrttrnr", "ɻ"), ("Elzrvbull", "◘"), ("Elzsbbrg", "\u032a"), ("Elzsblhr", "˓"),
   ("Elzsbrhr", "˒"), ("Elzschwa", "ə"), ("Elzsqfl", "◧"), ("Elzsqfnw", "┙"), ("Elzsqfr", "◨"),
   ("Elzsqfse", "◪"), ("Elzsqspne", "⋥"), ("Elztdcol", "⫶"), ("Elztesh", "ʧ"), ("Elztrna", "ɐ"),
   ("Elztrnh", "ɥ"), ("Elztrnm", "ɯ"), ("Elztrnmlr", "ɰ"), ("Elztrnr", "ɹ"), ("Elztrnrl", "ɺ"),
   ("Elztrnsa", "ɒ"), ("Elztrnt", "ʇ"), ("Elztrny", "ʎ"), ("Elzverti", "ˌ"), ("Elzverts", "ˈ"),
   ("Elzvrecto", "▯"), ("Elzxrat", "℞"), ("Elzyogh", "ʒ"), ("Game", "⅁"),
   ("LeftTriangleBar", "⧏"), ("NotLeftTriangleBar", "⧏\u0338"),
   ("NotRightTriangleBar", "⧐\u0338"), ("P", "¶"), ("RightTriangleBar", "⧐"),
   ("RuleDelayed", "⧴"), ("S", "§"), ("Vert", "‖"), ("Vvert", "⦀"), ("adots", "⋰"),
   ("allequal", "≌"), ("angle", "∠"), ("ast", "*"), ("backepsilon", "϶"), ("backprime", "‵"),
   ("backslash", "\\"), ("barwedge", "⌅"), ("because", "∵"), ("bigtriangledown", "▽"),
   ("bigtriangleup", "△"), ("bkarow", "⤍"), ("blacklozenge", "⧫"), ("blacksquare", "▪"),
   ("blacktriangle", "▴"), ("blacktriangledown", "▾"), ("blacktriangleleft", "◂"),
   ("blacktriangleright", "▸"), ("bot", "⊥"), ("boxast", "⧆"), ("boxbslash", "⧅"),
   ("boxcircle", "⧇"), ("boxdiag", "⧄"), ("circledR", "®"), ("circledS", "Ⓢ"), ("clubsuit", "♣"),
   ("complement", "∁"), ("copyright", "©"), ("dagger", "†"), ("ddagger", "‡"), ("degree", "°"),
   ("diagdown", "╲"), ("diagup", "╱"), ("diamondsuit", "♢"), ("emdash", "—"), ("emptyset", "∅"),
   ("eth", "ƪ"), ("exists", "∃"), ("fdiagovnearrow", "⤯"), ("fdiagovrdiag", "⤬"), ("flat", "♭"),
   ("forall", "∀"), ("heartsuit", "♡"), ("hermitconjmatrix", "⊹"), ("infty", "∞"),
   ("jupiter", "♃"), ("kernelcontraction", "∻"), ("lazysinv", "∾"), ("lmoustache", "⎰"),
   ("lnot", "¬"), ("lozenge", "◊"), ("measuredangle", "∡"), ("mercury", "☿"), ("mho", "℧"),
   ("nabla", "∇"), ("natural", "♮"), ("neg", "¬"), ("neovnwarrow", "⤱"), ("neovsearrow", "⤮"),
   ("neptune", "♆"), ("nexists", "∄"), ("nolinebreak", "\u2060"), ("nwovnearrow", "⤲"),
   ("partial", "∂"), ("pitchfork", "⋔"), ("prime", "′"), ("rdiagovfdiag", "⤫"),
   ("rdiagovsearrow", "⤰"), ("recorder", "⌕"), ("rightangle", "∟"), ("rightanglearc", "⊾"),
   ("rightmoon", "☾"), ("rmoustache", "⎱"), ("saturn", "♄"), ("sector", "⌔"),
   ("seovnearrow", "⤭"), ("sharp", "♯"), ("shuffle", "⧢"), ("spadesuit", "♠"),
   ("sphericalangle", "∢"), ("square", "□"), ("sterling", "£"), ("surd", "√"), ("therefore", "∴"),
   ("top", "⊤"), ("triangle", "△"), ("triangledown", "▿"), ("triangleleft", "◃"),
   ("triangleright", "▹"), ("uranus", "♅"), ("varepsilon", "ɛ"), ("varnothing", "∅"),
   ("vartriangle", "▵"), ("vert", "|"), ("yen", "¥")]

/-- Arrows that run in a circle. They stretch sideways, but they are no relations. -/
def circleArrows : List (String × String) :=
  [("circlearrowleft", "↺"), ("circlearrowright", "↻")]

/-! ### Operators -/

/-- Operators between two operands. -/
def binaryOperators : List (String × String) :=
  [("Cap", "⋒"), ("Cup", "⋓"), ("ElOr", "⩖"), ("ElzAnd", "⩓"), ("ElzOr", "⩔"), ("ElzTimes", "⨯"),
   ("Elzminhat", "⩟"), ("amalg", "⨿"), ("bigcirc", "○"), ("boxdot", "⊡"), ("boxminus", "⊟"),
   ("boxplus", "⊞"), ("boxtimes", "⊠"), ("btimes", "⨲"), ("bullet", "•"), ("cap", "∩"),
   ("cdot", "⋅"), ("cdotp", "·"), ("circ", "∘"), ("circledast", "⊛"), ("circledcirc", "⊚"),
   ("circleddash", "⊝"), ("cup", "∪"), ("cupdot", "⊍"), ("curlyvee", "⋎"), ("curlywedge", "⋏"),
   ("diamond", "⋄"), ("div", "÷"), ("divideontimes", "⋇"), ("dotminus", "∸"), ("dotplus", "∔"),
   ("intercal", "⊺"), ("interleave", "⫴"), ("intprod", "⨼"), ("intprodr", "⨽"),
   ("leftthreetimes", "⋋"), ("lhd", "⊲"), ("ltimes", "⋉"), ("minusdot", "⨪"), ("mp", "∓"),
   ("obar", "⌽"), ("obslash", "⦸"), ("odot", "⊙"), ("ominus", "⊖"), ("oplus", "⊕"),
   ("oslash", "⊘"), ("otimes", "⊗"), ("perspcorrespond", "⩞"), ("plusdot", "⨥"), ("pm", "±"),
   ("rhd", "⊳"), ("rightthreetimes", "⋌"), ("rtimes", "⋊"), ("setminus", "∖"), ("sqcap", "⊓"),
   ("sqcup", "⊔"), ("star", "⋆"), ("times", "×"), ("uplus", "⊎"), ("vee", "∨"), ("veebar", "⊻"),
   ("wedge", "∧"), ("wr", "≀")]

/-- Large operators with their limits beside them. -/
def largeOperators : List (String × String) :=
  [("clockoint", "⨏"), ("clwintegral", "∱"), ("iiiint", "⨌"), ("iiint", "∭"), ("iint", "∬"),
   ("int", "∫"), ("intBar", "⨎"), ("intbar", "⨍"), ("intcap", "⨙"), ("intcup", "⨚"),
   ("intx", "⨘"), ("lowint", "⨜"), ("oiiint", "∰"), ("oiint", "∯"), ("oint", "∮"),
   ("sqrint", "⨖"), ("upint", "⨛")]

/-- Large operators with their limits above and below them. -/
def stackedOperators : List (String × String) :=
  [("bbsum", "⅀"), ("bigcap", "⋂"), ("bigcup", "⋃"), ("bigcupdot", "⨃"), ("bigodot", "⨀"),
   ("bigoplus", "⨁"), ("bigotimes", "⨂"), ("bigsqcap", "⨅"), ("bigsqcup", "⨆"), ("bigtimes", "⨉"),
   ("biguplus", "⨄"), ("bigvee", "⋁"), ("bigwedge", "⋀"), ("conjquant", "⨇"), ("coprod", "∐"),
   ("disjquant", "⨈"), ("prod", "∏"), ("sum", "∑")]

/-- Operators that behave as punctuation. -/
def punctuation : List (String × String) :=
  [("cdots", "⋯"), ("colon", ":"), ("ddots", "⋱"), ("dots", "…"), ("ldots", "…"), ("vdots", "⋮")]

/-- Delimiters that open. -/
def openers : List (String × String) :=
  [("guilsinglleft", "‹"), ("lVert", "‖"), ("langle", "⟨"), ("lbrace", "\x7b"), ("lbrack", "["),
   ("lceil", "⌈"), ("lfloor", "⌊"), ("llcorner", "⌞"), ("lvert", "|"), ("openbracketleft", "〚"),
   ("ulcorner", "⌜")]

/-- Delimiters that close. -/
def closers : List (String × String) :=
  [("Elroang", "⦆"), ("guilsinglright", "›"), ("lrcorner", "⌟"), ("openbracketright", "〛"),
   ("rVert", "‖"), ("rangle", "⟩"), ("rbrace", "\x7d"), ("rbrack", "]"), ("rceil", "⌉"),
   ("rfloor", "⌋"), ("rvert", "|"), ("urcorner", "⌝")]

/-! ### Relations -/

/-- Relations that are no arrows, and arrows that do not stretch. -/
def relations : List (String × String) :=
  [("Bumpeq", "≎"), ("Dashv", "⫤"), ("Doteq", "≑"), ("DownLeftRightVector", "⥐"),
   ("DownLeftTeeVector", "⥞"), ("DownLeftVectorBar", "⥖"), ("DownRightTeeVector", "⥟"),
   ("DownRightVectorBar", "⥗"), ("ElzRlarr", "⥂"), ("Elzdlcorn", "⎣"), ("ElzrLarr", "⥄"),
   ("Elzrarrx", "⥇"), ("Equal", "⩵"), ("LeftDownTeeVector", "⥡"), ("LeftDownVectorBar", "⥙"),
   ("LeftRightVector", "⥎"), ("LeftTeeVector", "⥚"), ("LeftUpDownVector", "⥑"),
   ("LeftUpTeeVector", "⥠"), ("LeftUpVectorBar", "⥘"), ("LeftVectorBar", "⥒"), ("Lsh", "↰"),
   ("Mapsfrom", "⤆"), ("Mapsto", "⤇"), ("NestedGreaterGreater", "⪢"), ("NestedLessLess", "⪡"),
   ("NotGreaterGreater", "≫\u0338"), ("NotLessLess", "≪\u0338"),
   ("NotNestedGreaterGreater", "⪢\u0338"), ("NotNestedLessLess", "⪡\u0338"),
   ("NotSquareSubset", "⊏\u0338"), ("NotSquareSuperset", "⊐\u0338"),
   ("ReverseUpEquilibrium", "⥯"), ("RightDownTeeVector", "⥝"), ("RightDownVectorBar", "⥕"),
   ("RightTeeVector", "⥛"), ("RightUpDownVector", "⥏"), ("RightUpTeeVector", "⥜"),
   ("RightUpVectorBar", "⥔"), ("RightVectorBar", "⥓"), ("RoundImplies", "⥰"), ("Rsh", "↱"),
   ("Subset", "⋐"), ("Supset", "⋑"), ("UpEquilibrium", "⥮"), ("VDash", "⊫"), ("Vdash", "⊩"),
   ("Vvdash", "⊪"), ("approx", "≈"), ("approxeq", "≊"), ("approxnotequal", "≆"), ("asymp", "≍"),
   ("backsim", "∽"), ("backsimeq", "⋍"), ("between", "≬"), ("bowtie", "⋈"), ("bumpeq", "≏"),
   ("bumpeqq", "⪮"), ("circeq", "≗"), ("cong", "≅"), ("curlyeqprec", "⋞"), ("curlyeqsucc", "⋟"),
   ("dashV", "⫣"), ("dashv", "⊣"), ("dbkarow", "⤏"), ("ddotseq", "⩷"), ("doteq", "≐"),
   ("downharpoonleft", "⇃"), ("downharpoonright", "⇂"), ("dualmap", "⧟"), ("eqcirc", "≖"),
   ("eqcolon", "≕"), ("eqsim", "≂"), ("eqslantgtr", "⪖"), ("eqslantless", "⪕"), ("equiv", "≡"),
   ("fallingdotseq", "≒"), ("forks", "⫝̸"), ("forksnot", "⫝"), ("frown", "⌢"), ("ge", "≥"),
   ("geq", "≥"), ("geqq", "≧"), ("geqslant", "⩾"), ("gg", "≫"), ("ggg", "⋙"), ("gnapprox", "⪊"),
   ("gneq", "⪈"), ("gneqq", "≩"), ("gnsim", "⋧"), ("greater", ">"), ("gt", ">"),
   ("gtrapprox", "⪆"), ("gtrdot", "⋗"), ("gtreqless", "⋛"), ("gtreqqless", "⪌"), ("gtrless", "≷"),
   ("gtrsim", "≳"), ("gvertneqq", "≩\ufe00"), ("hksearow", "⤥"), ("hkswarow", "⤦"),
   ("image", "⊷"), ("in", "∈"), ("le", "≤"), ("leftharpoondown", "↽"), ("leftharpoonup", "↼"),
   ("leftrightharpoons", "⇋"), ("leq", "≤"), ("leqq", "≦"), ("leqslant", "⩽"), ("less", "<"),
   ("lessapprox", "⪅"), ("lessdot", "⋖"), ("lesseqgtr", "⋚"), ("lesseqqgtr", "⪋"),
   ("lessgtr", "≶"), ("lesssim", "≲"), ("ll", "≪"), ("lnapprox", "⪉"), ("lneq", "⪇"),
   ("lneqq", "≨"), ("lnsim", "⋦"), ("lt", "<"), ("lvertneqq", "≨\ufe00"), ("mid", "∣"),
   ("mlcp", "⫛"), ("models", "⊧"), ("multimap", "⊸"), ("nBumpeq", "≎\u0338"), ("nVDash", "⊯"),
   ("nVdash", "⊮"), ("napprox", "≉"), ("nbumpeq", "≏\u0338"), ("ncong", "≇"), ("ne", "≠"),
   ("nearrow", "↗"), ("neq", "≠"), ("neqsim", "≂\u0338"), ("nequiv", "≢"), ("ngeq", "≱"),
   ("ngeqslant", "⩾\u0338"), ("ngtr", "≯"), ("ni", "∋"), ("nleq", "≰"), ("nleqslant", "⩽\u0338"),
   ("nless", "≮"), ("nmid", "∤"), ("notgreaterless", "≹"), ("notin", "∉"),
   ("notlessgreater", "≸"), ("nparallel", "∦"), ("nprec", "⊀"), ("npreceq", "⪯\u0338"),
   ("nprecsim", "≾\u0338"), ("nsim", "≁"), ("nsime", "≄"), ("nsubset", "⊄"), ("nsubseteq", "⊈"),
   ("nsubseteqq", "⫅\u0338"), ("nsucc", "⊁"), ("nsucceq", "⪰\u0338"), ("nsuccsim", "≿\u0338"),
   ("nsupset", "⊅"), ("nsupseteq", "⊉"), ("nsupseteqq", "⫆\u0338"), ("ntriangleleft", "⋪"),
   ("ntrianglelefteq", "⋬"), ("ntriangleright", "⋫"), ("ntrianglerighteq", "⋭"), ("nvDash", "⊭"),
   ("nvdash", "⊬"), ("nwarrow", "↖"), ("original", "⊶"), ("parallel", "∥"),
   ("partialmeetcontraction", "⪣"), ("perp", "⊥"), ("prec", "≺"), ("precapprox", "⪷"),
   ("preccurlyeq", "≼"), ("preceq", "⪯"), ("precnapprox", "⪹"), ("precneqq", "⪵"),
   ("precnsim", "⋨"), ("precsim", "≾"), ("propto", "∝"), ("questeq", "≟"),
   ("rightharpoondown", "⇁"), ("rightharpoonup", "⇀"), ("rightleftharpoons", "⇌"),
   ("risingdotseq", "≓"), ("searrow", "↘"), ("sim", "∼"), ("simeq", "≃"), ("smile", "⌣"),
   ("sqsubset", "⊏"), ("sqsubseteq", "⊑"), ("sqsupset", "⊐"), ("sqsupseteq", "⊒"),
   ("starequal", "≛"), ("subset", "⊂"), ("subseteq", "⊆"), ("subseteqq", "⫅"), ("subsetneq", "⊊"),
   ("subsetneqq", "⫋"), ("succ", "≻"), ("succapprox", "⪸"), ("succcurlyeq", "≽"), ("succeq", "⪰"),
   ("succnapprox", "⪺"), ("succneqq", "⪶"), ("succnsim", "⋩"), ("succsim", "≿"), ("supset", "⊃"),
   ("supseteq", "⊇"), ("supseteqq", "⫆"), ("supsetneq", "⊋"), ("supsetneqq", "⫌"),
   ("swarrow", "↙"), ("tildetrpl", "≋"), ("toea", "⤨"), ("tona", "⤧"), ("tosa", "⤩"),
   ("towa", "⤪"), ("trianglelefteq", "⊴"), ("triangleq", "≜"), ("trianglerighteq", "⊵"),
   ("upharpoonleft", "↾"), ("upharpoonright", "↿"), ("vDash", "⊨"), ("varsubsetneqq", "⊊\ufe00"),
   ("varsupsetneq", "⊋\ufe00"), ("vartriangleleft", "⊲"), ("vartriangleright", "⊳"),
   ("vdash", "⊢"), ("verymuchless", "⋘"), ("wedgeq", "≙")]

/-- Arrows that stretch sideways. -/
def horizontalArrows : List (String × String) :=
  [("Leftarrow", "⇐"), ("Leftrightarrow", "⇔"), ("Lleftarrow", "⇚"), ("Longleftarrow", "⟸"),
   ("Longleftrightarrow", "⟺"), ("Longrightarrow", "⟹"), ("Rightarrow", "⇒"),
   ("Rrightarrow", "⇛"), ("curvearrowleft", "↶"), ("curvearrowright", "↷"),
   ("dblarrowupdown", "⇅"), ("drbkarrow", "⤐"), ("gets", "←"), ("hookleftarrow", "↩"),
   ("hookrightarrow", "↪"), ("iff", "⟺"), ("impliedby", "⟸"), ("implies", "⟹"),
   ("leftarrow", "←"), ("leftarrowtail", "↢"), ("leftarrowtriangle", "⇽"),
   ("leftleftarrows", "⇇"), ("leftrightarrow", "↔"), ("leftrightarrows", "⇆"),
   ("leftrightsquigarrow", "↭"), ("leftsquigarrow", "↜"), ("longleftarrow", "⟵"),
   ("longleftrightarrow", "⟷"), ("longmapsto", "⟼"), ("longrightarrow", "⟶"),
   ("looparrowleft", "↫"), ("looparrowright", "↬"), ("mapsto", "↦"), ("nLeftarrow", "⇍"),
   ("nRightarrow", "⇏"), ("nleftarrow", "↚"), ("nleftrightarrow", "↮"), ("nrightarrow", "↛"),
   ("rightarrow", "→"), ("rightarrowtail", "↣"), ("rightarrowtriangle", "⇾"),
   ("rightleftarrows", "⇄"), ("rightrightarrows", "⇉"), ("rightsquigarrow", "↝"), ("to", "→"),
   ("twoheadleftarrow", "↞"), ("twoheadrightarrow", "↠"), ("twoheadrightarrowtail", "⤖")]

/-- Arrows that stretch up and down. -/
def verticalArrows : List (String × String) :=
  [("Ddownarrow", "⤋"), ("DownArrowBar", "⤓"), ("DownArrowUpArrow", "⇵"), ("Downarrow", "⇓"),
   ("UpArrowBar", "⤒"), ("Uparrow", "⇑"), ("Updownarrow", "⇕"), ("Uuparrow", "⤊"),
   ("downarrow", "↓"), ("downdownarrows", "⇊"), ("uparrow", "↑"), ("updownarrow", "↕"),
   ("upuparrows", "⇈")]

/-! ### All symbols -/

/-- Symbols of one class with the same marks. -/
structure Group where
  cls : Class
  marks : Marks := {}
  glyphs : List (String × String)

/-- All symbols. -/
def groups : List Group :=
  [{ cls := .letter, glyphs := letters },
   { cls := .letter, marks := { upright := true }, glyphs := uprightLetters },
   { cls := .binary, glyphs := binaryOperators },
   { cls := .large, glyphs := largeOperators },
   { cls := .large, marks := { stackedLimits := true }, glyphs := stackedOperators },
   { cls := .punctuation, glyphs := punctuation },
   { cls := .opener, glyphs := openers },
   { cls := .closer, glyphs := closers },
   { cls := .relation, glyphs := relations },
   { cls := .relation, marks := { horizontalArrow := true }, glyphs := horizontalArrows },
   { cls := .relation, marks := { verticalArrow := true }, glyphs := verticalArrows },
   { cls := .other, glyphs := signs },
   { cls := .other, marks := { horizontalArrow := true }, glyphs := circleArrows }]

/-- The symbol of a name in a group. -/
def Group.find? (g : Group) (name : String) : Option Symbol :=
  (g.glyphs.lookup name).map fun glyph => ⟨glyph, g.cls, g.marks⟩

/-- The symbol of a name. -/
def named? (name : String) : Option Symbol :=
  groups.findSome? (·.find? name)

end TexFormula.Symbol
