import SqlGateway.Text.Ranges

/-!
# Letter pairs

The pairs of upper and lower case letters outside ASCII, as runs
`(first, last, step, image)`: every `step`-th code point from `first` to `last` goes to the code point
as far behind `image` as it lies behind `first`.  Letters whose capital form takes several characters
are listed apart.  The tables are packed; a code point is given by how far it lies behind the one before.
-/

namespace SqlGateway.Text

/-- A run of letters that move by the same amount. -/
abbrev CaseRun := Nat × Nat × Nat × Nat

/-- Where the code point `n` is moved by the first run that holds it. -/
def shiftBy (runs : List CaseRun) (n : Nat) : Nat :=
  match runs.find? fun r => decide (r.1 ≤ n) && decide (n ≤ r.2.1) && (n - r.1) % r.2.2.1 == 0 with
  | some r => r.2.2.2 + (n - r.1)
  | none => n

def runsFrom (start : Nat) : List Nat → List CaseRun
  | gap :: span :: step :: image :: rest =>
    (start + gap, start + gap + span, step, image) :: runsFrom (start + gap) rest
  | _ => []

/-- Letters with what they become, two or three characters. -/
def longFormsFrom (start : Nat) : List Nat → List (Nat × List Nat)
  | gap :: 2 :: a :: b :: rest => (start + gap, [a, b]) :: longFormsFrom (start + gap) rest
  | gap :: 3 :: a :: b :: c :: rest => (start + gap, [a, b, c]) :: longFormsFrom (start + gap) rest
  | _ => []

/-- Small letters and their capitals, where each belongs to the other. -/
def letterRuns : List CaseRun :=
  runsFrom 0 (unpacked
    [0x1036a910669b10468f10568a223198b1065f9245f59a25c294f921e74ea246a48825e25f81073b8163838812e3c8,
     0x1e279a10378f10378c1077ef1026fc1046f81056eb2246df1036dc1056cf1076c824318c810418fd1016b81047ee,
     0x1012e9df1019198e218519891032e9fe11318fb103918ca2285a7f824e47ec1027e9102c7be228269e101f79d2,
     0x21abeda1011abe9d1026ac1021abedc1016ab1041abedb1016a810269f10369911268e1016891012e9e81012e9dd,
     0x1011abf8d1026ce1032e9cc10186bf1036bd1012e9de1026bc1031abedd1012e9ca1011abede1016ae1016af10,
     0x10691ffd1241dee1061de8223ab1abee81011abeea101b6ef106198d1026e9111198c1016de1011abee91046d9,
     0x3f6d1ffa1031fef1051dff1011ff910391fb822e21f9f101a1e9e1111e9c10191ecb1182a1ea912841e981211e8e,
     0x1eafd125d1eaa815a5ddf2ce914d2a82ba821be22b88101d2b8921c6f2a9a26c5a29c824829288811f4828a81,
     0x17281fcb815281fc98171bf1fac821be2c81f88822ac1eb1abf8e10292e9cb1041abdfd104e8919fe8151bfb,
     0x6c1fffa1121ffda1121fff81121ffba1141ff981321fefa11281fdd8171f1fdb926291fd9815281fcf817281fcd8,
     0x10692e88815f3dc82aaee1391d9c28e8b102c28dc811f4a28cea105d91ffdc1051ffd811281ffb811481fef811,
     0x18b8f104f18ac814d1d2ebea1072ebdb221db2ea8821ca1b2e9ed1032e9ea101b2e9cf24218fe10118fa1042e9c8,
     0x2251abe9b101d1abdfe21851abdf92218f1abcea27c281abcca21c2ca1aba8823a1881ab98825c7ccac18b9d106,
     0x19f3d1abeeb101dbd1abfed103f1abfae2261abfa810191abf8f222b1abeec21e3e1abeae22a31abf8c1031abea8,
     0x101828ae9d242828adfd21c1c28ade9218128ade824c2ff28aae814b2e828a88814f2bcf1ffcc913959fa919ec81,
     0x3ecc881497db8a2ef98813f5aec829cac813f688828ea8816a3c8c28aead])

def CaseRun.back (r : CaseRun) : CaseRun :=
  (r.2.2.2, r.2.2.2 + (r.2.1 - r.1), r.2.2.1, r.1)

def capitalRuns : List CaseRun :=
  runsFrom 0 (unpacked
    [0x1ece1041eb81011eaa101e1ecb101fd1eb9105ab7e9104f79a10378f10378c1018e1ab1019e199101fc1ebc102ed,
     0x1ab99a10129ca10128da10128ca10228c911128be10128ac10128aa101ca9b1ead1041ec91011eba103a1ec8101,
     0x1eb9104cb1f9c81018ab]) ++ letterRuns

def smallRuns : List CaseRun :=
  runsFrom 0 (unpacked
    [0x10281feeb102c1fec817281fea817281fe88173da3bf101dada1ef810188a7eb104f79c10379910378e1078d,
     0x3cd1011db1041f99104da1ffeb10681ff8b]) ++ letterRuns.map CaseRun.back

/-- Letters whose capital form takes several characters. -/
def longCapitals : List (Nat × List Nat) :=
  longFormsFrom 0 (unpacked
    [0x211ce919821cc9f2daa2ced27af1c891c981ecd3481c891c981eb936c81c9c19a22cf19e1afc21da1ab1ab23bf,
     0x25a1d8a1cab1ecd321c891cab1ecd321c881cab1ecd321cab1ecd22ee1afe189211c9a1b9211c9a1af211c981ac,
     0x211eb91fc9f211eb91fc9e211eb91fc9d211eb91fc9c211eb91fc9b211eb91fc9a211eb91fc99211eb91fc98,
     0x211eb91fc9f211eb91fc9e211eb91fc9d211eb91fc9c211eb91fc9b211eb91fc9a211eb91fc99211eb91fc98,
     0x211eb91fcdf211eb91fcde211eb91fcdd211eb91fcdc211eb91fcdb211eb91fcda211eb91fcd9211eb91fcd8,
     0x211eb91fcdf211eb91fcde211eb91fcdd211eb91fcdc211eb91fcdb211eb91fcda211eb91fcd9211eb91fcd8,
     0x211eb91fddf211eb91fdde211eb91fddd211eb91fddc211eb91fddb211eb91fdda211eb91fdd9211eb91fdd8,
     0x231eb91fddf211eb91fdde211eb91fddd211eb91fddc211eb91fddb211eb91fdda211eb91fdd9211eb91fdd8,
     0x1e99211eb91eaf211eb91ff9a261eb91ea9251eb91d8a1ea9311d8a1ea9221eb91e8e211eb91ea9211eb91fefa,
     0x1b1d8a1c981eb9311d8a1eb9231c891c981eb9311c881c981eb9361eb91eaf251eb91d8a1eaf311d8a1eaf221eb9,
     0x1e9f211eb91ed9211eb91fffa21b1d8a1c981ecd311d8a1ecd221cab1ec9211c891c981ecd311c881c981ecd3,
     0x2119c18e18e3119918e18e3119c18e2119918e2118e18e21ddc8c1eb91ed9251eb91d8a1ed9311d8a1ed9221eb9,
     0x2cfd2d8c212d8e2d9e212cfb2d8c212ced2d8c212d8e2d8c21d1ac1ab211ac1ab])

def casedRanges : Ranges :=
  .packed
    [0x325b215114e5caf59194e12ce1829b11ab12c111311611332243883b13a844138b13f12f51411a15f3a63a189,
     0x53111a214148d71351d46243713311716d23f1111111182624e2624ae1cd4a11d7f5c188325b7194a8a621ae1ac8,
     0x1323b5111257b1432f119e28e3c2a5e7ccaa15114e1c23461cf21fc3cae6c1ce9234829145542146141111116,
     0x5adc81885edd6b1d6b3b8b21711f11b121711f11b1ec4c44c1c81a82acd3a63a289951c74fd881a871955b1ced,
     0x1813913f13913f13913f13913f13913925ac1731151413c17118241189171111c14222122118f11ad6ae88188,
     0x3a63a63a3fdc18c4fc92c11a3cec]

/-- Marks that are passed over when the neighbours of a letter are looked for. -/
def casePassedOver : Ranges :=
  .packed
    [0x1a1181cd1282d1a14b111b1a61b15c112121115d6915139f73fb1121914243887ef22141114118f1114b11b1614f,
     0x133224241792213a22c1184417a11f11d21a73141841116f7a591862715c35b383812141b7a1b1bb3b3e1114941,
     0x4427923c22c25161217a13d21b2741353116f1316a11c17d13e21b27118411217a1162e22c14215417921b1323e,
     0x162211d4283423922216141ce1194c11b521511e6f111113b219a6111919211ca191b7211ba1137119813d22c118,
     0x14f121a618211117117a1223bb361192431ee14a218916b55d15131b211871218823e23e23d31eea319c811be11f,
     0x31d31d31b3116fd1cd4a11d7f6a231614711d131aa618822187a311321178312244821c19581511511684693f18,
     0x49e62bca16fcae31bd61bd155344c17ad15f481c811f11fd31e925e9b496b1d2811d111a1569521211a21851c21d,
     0x11c2222618a22d129224216835e1b39184e11d2a3a22af1523914131182331cf32f119e4a1e21a843c111a141ca1,
     0x15f1114b11b161712d91214a281c132818fd292ab14fce8141211f931951cc112521e13b1125223116b11b14b118,
     0x122246931a221591f6e11fb4691b2b9268b418fd22cd1435845213198e1915a16288d52ad13ca1188932d118b25d,
     0x23b212643de21241161ac12f11321838b5374d1327922d18312c816211231bf1241a196c21c17e18154c36a11a14,
     0x2121722e1aa116176ae211d5e32619118426581a48142242a814112488211948b514231cd11621111da2112181ad,
     0x19318c82f25e199bc4126abe217144889b212188297f1289b41977b53baef191acfb25bb111321981171211361fa,
     0x3e82881c83e1388e88955adf181dd72fc847d15e81e48d51217229172da81f152e11e1186a46f3efb32ac43e7228]

end SqlGateway.Text
