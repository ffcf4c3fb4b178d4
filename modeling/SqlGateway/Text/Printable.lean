import SqlGateway.Text.Ranges

/-!
# Printable characters

A character is printable unless it is a control, a format mark, a private or unassigned code point,
or a blank other than the space.
-/

namespace SqlGateway.Text

/-- The characters outside ASCII that are not printable. -/
def hiddenRanges : Ranges :=
  .packed
    [0x12c9119a193f51b1123c11f26927b1e1cd27b268138812e29643b186f1326a24e169d12c11174621b9a11c49288,
     0x1f1231311a25121712e13119131a29711471332245112212121712e2246132392512411842221924311712e22218,
     0x41311922812f1311d52d1e16124133541c3332321112341336121a2a251243732221925121712e22218131771c24,
     0x1c321a618111641372111913832a1313a228461316b1311d1d211a24126274131192511a12f1312e71a242123127,
     0x11f24111724149241592411172415f92151138e4d1d11f14c14f44c119848421a26111522f111381511124d3d47a,
     0x3141c41c13f1a18e55b71b961b11e61a61a21be1c21311d1c2c1938192e71b933c11a882621ae63a348218b24179,
     0x3f1111111182624e26218ae55b181b25b77c31f37c181ec15f319d693f21e61a61b23d118927e31b63a45c1b525a,
     0x171719381e2778215115d55bd14823cac2d1b391aaf429c1f491f4931d13b22295f183829191322b1621e11f16d2,
     0x7b3851112539b182f82c5bc196f3799dd15f1c1ac11be15b51cf21ae17f51c3a3ae1c1b913a4a1fe171717171717,
     0x488846942f1c2decc61a21fe47c171719626261a3c381cf21a21e196f14941b119e33e1b1ec61c1818e187861a3,
     0x1212b13a11c221d7173326262632fe428f154412b16b65a48176e26fd281fd1212111513a551c74e1da25de1cc88,
     0x121711f11c1b6c185844c44c61a22be5a1e44d13e55b53e194c43c1f6933d28a5e5f131d11b835d4351fb4a1e21f,
     0x23d131185216a22c478188153b3495212b68191819812f213215c112618d1915a1638181a2e194ef18b21711f11b,
     0x192f2c3c4e3a2e5a185819e22315a13f4ce1a185e76b1d6b6f1991a871c473a53b23d36e191c44f4818871971a43,
     0x5161232221a15121712e222181461a57b61b11f1411171895c12a1b2c11c8194f182a16d61a7391d517e194c419e,
     0x191c2213e12118212181c1ab1cc7c2f92f41f23b6e1a67a2b1d61a1b18d4a4e26e2ce1a181983e511bc29b53727,
     0x394ee1a761214d121661a1819121135c12171991e12e24833d1a1e15d11948f1991d1ab181983b1b25e21818e1a,
     0x2b52d1711a1a18e1a623e61a11a941a13f718f928ef9198f7fa928df1d1cb599c38c1b511df1ce1ebb1d6a1f12ef,
     0x199c8421a71931d51db4c8c69c1842935d4cb12171429bcf195a2bae181bff81e21b518829779419b1cd1bb1ae8,
     0x1151413c17118241189171111c14222122118f11ad28f39191af1c2c2ba18e2d1e81819a24f1a3ee7c1ec192f25e,
     0x41a419c5928238d11f1214172bc8157a293f588241a21e35d3ad51217229173c93f29a81f151f1afe24cc25ac173,
     0x49e26c29151352911a1114141714211211111111112112131111114161111411a11211213b1438a7d19c18c1ca92,
     0x19e223e185861a187841c1f141c71b91c1ec31d32851fb82ba61e271945c1d3d782de1a4d11f11f21f1c1cc45c,
     0x2fca18be68bf1ece91e1ba8a23be7188f9481abbc8288e1a4d6f12ab197181861a1a651b33d197353521e1c5ac,
     0x5ff8a83e82deeeed19d9b]

def isPrintable (c : Char) : Bool :=
  if c.toNat < 128 then decide (32 ≤ c.toNat) && decide (c.toNat < 127)
  else !hiddenRanges.has c.toNat

end SqlGateway.Text
