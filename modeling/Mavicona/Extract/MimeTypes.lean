import Mavicona.Extract.Ruler

/-!
# The known mime types

Reference: `extract/detect.cpp` (`loadMime`), `extract/mime.h`.

Every type is entered under its own name, so the table is a list of the types, in the order of the
source.
-/

namespace Mavicona.Extract

/-- The bytes of a literal of the source. -/
def utf8 (s : String) : Bytes := s.toByteArray.data.toList

/-- The constructor of `Mime` with an extension. -/
def mime (name type extension : String) : Mime := ⟨utf8 name, utf8 type, utf8 extension⟩

/-- The types of `loadMime`. -/
@[irreducible] def mimeTypes : List Mime :=
  [mime "Text File" "text/plain" ".txt",
    mime "3D Crossword Plugin" "application/vnd.hzn-3d-crossword" ".x3d",
    mime "3GP" "video/3gpp" ".3gp",
    mime "3GP2" "video/3gpp2" ".3g2",
    mime "3GPP MSEQ File" "application/vnd.mseq" ".mseq",
    mime "3M Post It Notes" "application/vnd.3m.post-it-notes" ".pwn",
    mime "3rd Generation Partnership Project - Pic Large"
      "application/vnd.3gpp.pic-bw-large" ".plb",
    mime "3rd Generation Partnership Project - Pic Small"
      "application/vnd.3gpp.pic-bw-small" ".psb",
    mime "3rd Generation Partnership Project - Pic Var" "application/vnd.3gpp.pic-bw-var" ".pvb",
    mime "3rd Generation Partnership Project - Transaction Capabilities Application Part"
      "application/vnd.3gpp2.tcap" ".tcap",
    mime "7-Zip" "application/x-7z-compressed" ".7z",
    mime "AbiWord" "application/x-abiword" ".abw",
    mime "Ace Archive" "application/x-ace-compressed" ".ace",
    mime "Active Content Compression" "application/vnd.americandynamics.acc" ".acc",
    mime "ACU Cobol" "application/vnd.acucobol" ".acu",
    mime "ACU Cobol" "application/vnd.acucorp" ".atc",
    mime "Adaptive differential pulse-code modulation" "audio/adpcm" ".adp",
    mime "Adobe (Macropedia) Authorware - Binary File" "application/x-authorware-bin" ".aab",
    mime "Adobe (Macropedia) Authorware - Map" "application/x-authorware-map" ".aam",
    mime "Adobe (Macropedia) Authorware - Segment File" "application/x-authorware-seg" ".aas",
    mime "Adobe AIR Application"
      "application/vnd.adobe.air-application-installer-package+zip" ".air",
    mime "Adobe Flash" "application/x-shockwave-flash" ".swf",
    mime "Adobe Flex Project" "application/vnd.adobe.fxp" ".fxp",
    mime "Adobe Portable Document Format" "application/pdf" ".pdf",
    mime "Adobe PostScript Printer Description File Format" "application/vnd.cups-ppd" ".ppd",
    mime "Adobe Shockwave Player" "application/x-director" ".dir",
    mime "Adobe XML Data Package" "application/vnd.adobe.xdp+xml" ".xdp",
    mime "Adobe XML Forms Data Format" "application/vnd.adobe.xfdf" ".xfdf",
    mime "Advanced Audio Coding (AAC)" "audio/x-aac" ".aac",
    mime "Ahead AIR Application" "application/vnd.ahead.space" ".ahead",
    mime "AirZip FileSECURE" "application/vnd.airzip.filesecure.azf" ".azf",
    mime "AirZip FileSECURE" "application/vnd.airzip.filesecure.azs" ".azs",
    mime "Amazon Kindle eBook format" "application/vnd.amazon.ebook" ".azw",
    mime "AmigaDE" "application/vnd.amiga.ami" ".ami",
    mime "Andrew Toolkit" "application/andrew-inset" "N/A",
    mime "Android Package Archive" "application/vnd.android.package-archive" ".apk",
    mime "ANSER-WEB Terminal Client - Certificate Issue"
      "application/vnd.anser-web-certificate-issue-initiation" ".cii",
    mime "ANSER-WEB Terminal Client - Web Funds Transfer"
      "application/vnd.anser-web-funds-transfer-initiation" ".fti",
    mime "Antix Game Player" "application/vnd.antix.game-component" ".atx",
    mime "Apple Installer Package" "application/vnd.apple.installer+xml" ".mpkg",
    mime "Applixware" "application/applixware" ".aw",
    mime "Archipelago Lesson Player" "application/vnd.hhe.lesson-player" ".les",
    mime "Arista Networks Software Image" "application/vnd.aristanetworks.swi" ".swi",
    mime "Assembler Source File" "text/x-asm" ".s",
    mime "Atom Publishing Protocol" "application/atomcat+xml" ".atomcat",
    mime "Atom Publishing Protocol Service Document" "application/atomsvc+xml" ".atomsvc",
    mime "Atom Syndication Format" "application/atom+xml" ".atom, .xml",
    mime "Attribute Certificate" "application/pkix-attr-cert" ".ac",
    mime "Audio Interchange File Format" "audio/x-aiff" ".aif",
    mime "Audio Video Interleave (AVI)" "video/x-msvideo" ".avi",
    mime "Audiograph" "application/vnd.audiograph" ".aep",
    mime "AutoCAD DXF" "image/vnd.dxf" ".dxf",
    mime "Autodesk Design Web Format (DWF)" "model/vnd.dwf" ".dwf",
    mime "BAS Partitur Format" "text/plain-bas" ".par",
    mime "Binary CPIO Archive" "application/x-bcpio" ".bcpio",
    mime "Binary Data" "application/octet-stream" ".bin",
    mime "Bitmap Image File" "image/bmp" ".bmp",
    mime "BitTorrent" "application/x-bittorrent" ".torrent",
    mime "Blackberry COD File" "application/vnd.rim.cod" ".cod",
    mime "Blueice Research Multipass" "application/vnd.blueice.multipass" ".mpm",
    mime "BMI Drawing Data Interchange" "application/vnd.bmi" ".bmi",
    mime "Bourne Shell Script" "application/x-sh" ".sh",
    mime "BTIF" "image/prs.btif" ".btif",
    mime "BusinessObjects" "application/vnd.businessobjects" ".rep",
    mime "Bzip Archive" "application/x-bzip" ".bz",
    mime "Bzip2 Archive" "application/x-bzip2" ".bz2",
    mime "C Shell Script" "application/x-csh" ".csh",
    mime "C Source File" "text/x-c" ".c",
    mime "CambridgeSoft Chem Draw" "application/vnd.chemdraw+xml" ".cdxml",
    mime "Cascading Style Sheets (CSS)" "text/css" ".css",
    mime "ChemDraw eXchange file" "chemical/x-cdx" ".cdx",
    mime "Chemical Markup Language" "chemical/x-cml" ".cml",
    mime "Chemical Style Markup Language" "chemical/x-csml" ".csml",
    mime "CIM Database" "application/vnd.contact.cmsg" ".cdbcmsg",
    mime "Claymore Data Files" "application/vnd.claymore" ".cla",
    mime "Clonk Game" "application/vnd.clonk.c4group" ".c4g",
    mime "Close Captioning - Subtitle" "image/vnd.dvb.subtitle" ".sub",
    mime "Cloud Data Management Interface (CDMI) - Capability"
      "application/cdmi-capability" ".cdmia",
    mime "Cloud Data Management Interface (CDMI) - Contaimer" "application/cdmi-container" ".cdmic",
    mime "Cloud Data Management Interface (CDMI) - Domain" "application/cdmi-domain" ".cdmid",
    mime "Cloud Data Management Interface (CDMI) - Object" "application/cdmi-object" ".cdmio",
    mime "Cloud Data Management Interface (CDMI) - Queue" "application/cdmi-queue" ".cdmiq",
    mime "ClueTrust CartoMobile - Config" "application/vnd.cluetrust.cartomobile-config" ".c11amc",
    mime "ClueTrust CartoMobile - Config Package"
      "application/vnd.cluetrust.cartomobile-config-pkg" ".c11amz",
    mime "CMU Image" "image/x-cmu-raster" ".ras",
    mime "COLLADA" "model/vnd.collada+xml" ".dae",
    mime "Comma-Seperated Values" "text/csv" ".csv",
    mime "Compact Pro" "application/mac-compactpro" ".cpt",
    mime "Compiled Wireless Markup Language (WMLC)" "application/vnd.wap.wmlc" ".wmlc",
    mime "Computer Graphics Metafile" "image/cgm" ".cgm",
    mime "CoolTalk" "x-conference/x-cooltalk" ".ice",
    mime "Corel Metafile Exchange (CMX)" "image/x-cmx" ".cmx",
    mime "CorelXARA" "application/vnd.xara" ".xar",
    mime "CosmoCaller" "application/vnd.cosmocaller" ".cmc",
    mime "CPIO Archive" "application/x-cpio" ".cpio",
    mime "CrickSoftware - Clicker" "application/vnd.crick.clicker" ".clkx",
    mime "CrickSoftware - Clicker - Keyboard" "application/vnd.crick.clicker.keyboard" ".clkk",
    mime "CrickSoftware - Clicker - Palette" "application/vnd.crick.clicker.palette" ".clkp",
    mime "CrickSoftware - Clicker - Template" "application/vnd.crick.clicker.template" ".clkt",
    mime "CrickSoftware - Clicker - Wordbank" "application/vnd.crick.clicker.wordbank" ".clkw",
    mime "Critical Tools - PERT Chart EXPERT" "application/vnd.criticaltools.wbs+xml" ".wbs",
    mime "CryptoNote" "application/vnd.rig.cryptonote" ".cryptonote",
    mime "Crystallographic Interchange Format" "chemical/x-cif" ".cif",
    mime "CrystalMaker Data Format" "chemical/x-cmdf" ".cmdf",
    mime "CU-SeeMe" "application/cu-seeme" ".cu",
    mime "CU-Writer" "application/prs.cww" ".cww",
    mime "Curl - Applet" "text/vnd.curl" ".curl",
    mime "Curl - Detached Applet" "text/vnd.curl.dcurl" ".dcurl",
    mime "Curl - Manifest File" "text/vnd.curl.mcurl" ".mcurl",
    mime "Curl - Source Code" "text/vnd.curl.scurl" ".scurl",
    mime "CURL Applet" "application/vnd.curl.car" ".car",
    mime "CURL Applet" "application/vnd.curl.pcurl" ".pcurl",
    mime "CustomMenu" "application/vnd.yellowriver-custom-menu" ".cmp",
    mime "Data Structure for the Security Suitability of Cryptographic Algorithms"
      "application/dssc+der" ".dssc",
    mime "Data Structure for the Security Suitability of Cryptographic Algorithms"
      "application/dssc+xml" ".xdssc",
    mime "Debian Package" "application/x-debian-package" ".deb",
    mime "DECE Audio" "audio/vnd.dece.audio" ".uva",
    mime "DECE Graphic" "image/vnd.dece.graphic" ".uvi",
    mime "DECE High Definition Video" "video/vnd.dece.hd" ".uvh",
    mime "DECE Mobile Video" "video/vnd.dece.mobile" ".uvm",
    mime "DECE MP4" "video/vnd.uvvu.mp4" ".uvu",
    mime "DECE PD Video" "video/vnd.dece.pd" ".uvp",
    mime "DECE SD Video" "video/vnd.dece.sd" ".uvs",
    mime "DECE Video" "video/vnd.dece.video" ".uvv",
    mime "Device Independent File Format (DVI)" "application/x-dvi" ".dvi",
    mime "Digital Siesmograph Networks - SEED Datafiles" "application/vnd.fdsn.seed" ".seed",
    mime "Digital Talking Book" "application/x-dtbook+xml" ".dtb",
    mime "Digital Talking Book - Resource File" "application/x-dtbresource+xml" ".res",
    mime "Digital Video Broadcasting" "application/vnd.dvb.ait" ".ait",
    mime "Digital Video Broadcasting" "application/vnd.dvb.service" ".svc",
    mime "Digital Winds Music" "audio/vnd.digital-winds" ".eol",
    mime "DjVu" "image/vnd.djvu" ".djvu",
    mime "Document Type Definition" "application/xml-dtd" ".dtd",
    mime "Dolby Meridian Lossless Packing" "application/vnd.dolby.mlp" ".mlp",
    mime "Doom Video Game" "application/x-doom" ".wad",
    mime "DPGraph" "application/vnd.dpgraph" ".dpg",
    mime "DRA Audio" "audio/vnd.dra" ".dra",
    mime "DreamFactory" "application/vnd.dreamfactory" ".dfac",
    mime "DTS Audio" "audio/vnd.dts" ".dts",
    mime "DTS High Definition Audio" "audio/vnd.dts.hd" ".dtshd",
    mime "DWG Drawing" "image/vnd.dwg" ".dwg",
    mime "DynaGeo" "application/vnd.dynageo" ".geo",
    mime "ECMAScript" "application/ecmascript" ".es",
    mime "EcoWin Chart" "application/vnd.ecowin.chart" ".mag",
    mime "EDMICS 2000" "image/vnd.fujixerox.edmics-mmr" ".mmr",
    mime "EDMICS 2000" "image/vnd.fujixerox.edmics-rlc" ".rlc",
    mime "Efficient XML Interchange" "application/exi" ".exi",
    mime "EFI Proteus" "application/vnd.proteus.magazine" ".mgz",
    mime "Electronic Publication" "application/epub+zip" ".epub",
    mime "Email Message" "message/rfc822" ".eml",
    mime "Enliven Viewer" "application/vnd.enliven" ".nml",
    mime "Express by Infoseek" "application/vnd.is-xpr" ".xpr",
    mime "eXtended Image File Format (XIFF)" "image/vnd.xiff" ".xif",
    mime "Extensible Forms Description Language" "application/vnd.xfdl" ".xfdl",
    mime "Extensible MultiModal Annotation" "application/emma+xml" ".emma",
    mime "EZPix Secure Photo Album" "application/vnd.ezpix-album" ".ez2",
    mime "EZPix Secure Photo Album" "application/vnd.ezpix-package" ".ez3",
    mime "FAST Search & Transfer ASA" "image/vnd.fst" ".fst",
    mime "FAST Search & Transfer ASA" "video/vnd.fvt" ".fvt",
    mime "FastBid Sheet" "image/vnd.fastbidsheet" ".fbs",
    mime "FCS Express Layout Link" "application/vnd.denovo.fcselayout-link" ".fe_launch",
    mime "Flash Video" "video/x-f4v" ".f4v",
    mime "Flash Video" "video/x-flv" ".flv",
    mime "FlashPix" "image/vnd.fpx" ".fpx",
    mime "FlashPix" "image/vnd.net-fpx" ".npx",
    mime "FLEXSTOR" "text/vnd.fmi.flexstor" ".flx",
    mime "FLI/FLC Animation Format" "video/x-fli" ".fli",
    mime "FluxTime Clip" "application/vnd.fluxtime.clip" ".ftc",
    mime "Forms Data Format" "application/vnd.fdf" ".fdf",
    mime "Fortran Source File" "text/x-fortran" ".f",
    mime "FrameMaker Interchange Format" "application/vnd.mif" ".mif",
    mime "FrameMaker Normal Format" "application/vnd.framemaker" ".fm",
    mime "FreeHand MX" "image/x-freehand" ".fh",
    mime "Friendly Software Corporation" "application/vnd.fsc.weblaunch" ".fsc",
    mime "Frogans Player" "application/vnd.frogans.fnc" ".fnc",
    mime "Frogans Player" "application/vnd.frogans.ltf" ".ltf",
    mime "Fujitsu - Xerox 2D CAD Data" "application/vnd.fujixerox.ddd" ".ddd",
    mime "Fujitsu - Xerox DocuWorks" "application/vnd.fujixerox.docuworks" ".xdw",
    mime "Fujitsu - Xerox DocuWorks Binder" "application/vnd.fujixerox.docuworks.binder" ".xbd",
    mime "Fujitsu Oasys" "application/vnd.fujitsu.oasys" ".oas",
    mime "Fujitsu Oasys" "application/vnd.fujitsu.oasys2" ".oa2",
    mime "Fujitsu Oasys" "application/vnd.fujitsu.oasys3" ".oa3",
    mime "Fujitsu Oasys" "application/vnd.fujitsu.oasysgp" ".fg5",
    mime "Fujitsu Oasys" "application/vnd.fujitsu.oasysprs" ".bh2",
    mime "FutureSplash Animator" "application/x-futuresplash" ".spl",
    mime "FuzzySheet" "application/vnd.fuzzysheet" ".fzs",
    mime "G3 Fax Image" "image/g3fax" ".g3",
    mime "GameMaker ActiveX" "application/vnd.gmx" ".gmx",
    mime "Gen-Trix Studio" "model/vnd.gtw" ".gtw",
    mime "Genomatix Tuxedo Framework" "application/vnd.genomatix.tuxedo" ".txd",
    mime "GeoGebra" "application/vnd.geogebra.file" ".ggb",
    mime "GeoGebra" "application/vnd.geogebra.tool" ".ggt",
    mime "Geometric Description Language (GDL)" "model/vnd.gdl" ".gdl",
    mime "GeoMetry Explorer" "application/vnd.geometry-explorer" ".gex",
    mime "GEONExT and JSXGraph" "application/vnd.geonext" ".gxt",
    mime "GeoplanW" "application/vnd.geoplan" ".g2w",
    mime "GeospacW" "application/vnd.geospace" ".g3w",
    mime "Ghostscript Font" "application/x-font-ghostscript" ".gsf",
    mime "Glyph Bitmap Distribution Format" "application/x-font-bdf" ".bdf",
    mime "GNU Tar Files" "application/x-gtar" ".gtar",
    mime "GNU Texinfo Document" "application/x-texinfo" ".texinfo",
    mime "Gnumeric" "application/x-gnumeric" ".gnumeric",
    mime "Google Earth - KML" "application/vnd.google-earth.kml+xml" ".kml",
    mime "Google Earth - Zipped KML" "application/vnd.google-earth.kmz" ".kmz",
    mime "GrafEq" "application/vnd.grafeq" ".gqf",
    mime "Graphics Interchange Format" "image/gif" ".gif",
    mime "Graphviz" "text/vnd.graphviz" ".gv",
    mime "Groove - Account" "application/vnd.groove-account" ".gac",
    mime "Groove - Help" "application/vnd.groove-help" ".ghf",
    mime "Groove - Identity Message" "application/vnd.groove-identity-message" ".gim",
    mime "Groove - Injector" "application/vnd.groove-injector" ".grv",
    mime "Groove - Tool Message" "application/vnd.groove-tool-message" ".gtm",
    mime "Groove - Tool Template" "application/vnd.groove-tool-template" ".tpl",
    mime "Groove - Vcard" "application/vnd.groove-vcard" ".vcg",
    mime "H.261" "video/h261" ".h261",
    mime "H.263" "video/h263" ".h263",
    mime "H.264" "video/h264" ".h264",
    mime "Hewlett Packard Instant Delivery" "application/vnd.hp-hpid" ".hpid",
    mime "Hewlett-Packard's WebPrintSmart" "application/vnd.hp-hps" ".hps",
    mime "Hierarchical Data Format" "application/x-hdf" ".hdf",
    mime "Hit'n'Mix" "audio/vnd.rip" ".rip",
    mime "Homebanking Computer Interface (HBCI)" "application/vnd.hbci" ".hbci",
    mime "HP Indigo Digital Press - Job Layout Languate" "application/vnd.hp-jlyt" ".jlt",
    mime "HP Printer Command Language" "application/vnd.hp-pcl" ".pcl",
    mime "HP-GL/2 and HP RTL" "application/vnd.hp-hpgl" ".hpgl",
    mime "HV Script" "application/vnd.yamaha.hv-script" ".hvs",
    mime "HV Voice Dictionary" "application/vnd.yamaha.hv-dic" ".hvd",
    mime "HV Voice Parameter" "application/vnd.yamaha.hv-voice" ".hvp",
    mime "Hydrostatix Master Suite" "application/vnd.hydrostatix.sof-data" ".sfd-hdstx",
    mime "Hyperstudio" "application/hyperstudio" ".stk",
    mime "Hypertext Application Language" "application/vnd.hal+xml" ".hal",
    mime "HyperText Markup Language (HTML)" "text/html" ".html",
    mime "IBM DB2 Rights Manager" "application/vnd.ibm.rights-management" ".irm",
    mime "IBM Electronic Media Management System - Secure Container"
      "application/vnd.ibm.secure-container" ".sc",
    mime "iCalendar" "text/calendar" ".ics",
    mime "ICC profile" "application/vnd.iccprofile" ".icc",
    mime "Icon Image" "image/x-icon" ".ico",
    mime "igLoader" "application/vnd.igloader" ".igl",
    mime "Image Exchange Format" "image/ief" ".ief",
    mime "ImmerVision PURE Players" "application/vnd.immervision-ivp" ".ivp",
    mime "ImmerVision PURE Players" "application/vnd.immervision-ivu" ".ivu",
    mime "IMS Networks" "application/reginfo+xml" ".rif",
    mime "In3D - 3DML" "text/vnd.in3d.3dml" ".3dml",
    mime "In3D - 3DML" "text/vnd.in3d.spot" ".spot",
    mime "Initial Graphics Exchange Specification (IGES)" "model/iges" ".igs",
    mime "Interactive Geometry Software" "application/vnd.intergeo" ".i2g",
    mime "Interactive Geometry Software Cinderella" "application/vnd.cinderella" ".cdy",
    mime "Intercon FormNet" "application/vnd.intercon.formnet" ".xpw",
    mime "International Society for Advancement of Cytometry" "application/vnd.isac.fcs" ".fcs",
    mime "Internet Protocol Flow Information Export" "application/ipfix" ".ipfix",
    mime "Internet Public Key Infrastructure - Certificate" "application/pkix-cert" ".cer",
    mime "Internet Public Key Infrastructure - Certificate Management Protocole"
      "application/pkixcmp" ".pki",
    mime "Internet Public Key Infrastructure - Certificate Revocation Lists"
      "application/pkix-crl" ".crl",
    mime "Internet Public Key Infrastructure - Certification Path"
      "application/pkix-pkipath" ".pkipath",
    mime "IOCOM Visimeet" "application/vnd.insors.igm" ".igm",
    mime "IP Unplugged Roaming Client" "application/vnd.ipunplugged.rcprofile" ".rcprofile",
    mime "iRepository / Lucidoc Editor" "application/vnd.irepository.package+xml" ".irp",
    mime "J2ME App Descriptor" "text/vnd.sun.j2me.app-descriptor" ".jad",
    mime "Java Archive" "application/java-archive" ".jar",
    mime "Java Bytecode File" "application/java-vm" ".class",
    mime "Java Network Launching Protocol" "application/x-java-jnlp-file" ".jnlp",
    mime "Java Serialized Object" "application/java-serialized-object" ".ser",
    mime "Java Source File" "text/x-java-source,java" ".java",
    mime "JavaScript" "application/javascript" ".js",
    mime "JavaScript Object Notation (JSON)" "application/json" ".json",
    mime "Joda Archive" "application/vnd.joost.joda-archive" ".joda",
    mime "JPEG 2000 Compound Image File Format" "video/jpm" ".jpm",
    mime "JPEG Image" "image/jpeg" ".jpeg, .jpg",
    mime "JPGVideo" "video/jpeg" ".jpgv",
    mime "Kahootz" "application/vnd.kahootz" ".ktz",
    mime "Karaoke on Chipnuts Chipsets" "application/vnd.chipnuts.karaoke-mmd" ".mmd",
    mime "KDE KOffice Office Suite - Karbon" "application/vnd.kde.karbon" ".karbon",
    mime "KDE KOffice Office Suite - KChart" "application/vnd.kde.kchart" ".chrt",
    mime "KDE KOffice Office Suite - Kformula" "application/vnd.kde.kformula" ".kfo",
    mime "KDE KOffice Office Suite - Kivio" "application/vnd.kde.kivio" ".flw",
    mime "KDE KOffice Office Suite - Kontour" "application/vnd.kde.kontour" ".kon",
    mime "KDE KOffice Office Suite - Kpresenter" "application/vnd.kde.kpresenter" ".kpr",
    mime "KDE KOffice Office Suite - Kspread" "application/vnd.kde.kspread" ".ksp",
    mime "KDE KOffice Office Suite - Kword" "application/vnd.kde.kword" ".kwd",
    mime "Kenamea App" "application/vnd.kenameaapp" ".htke",
    mime "Kidspiration" "application/vnd.kidspiration" ".kia",
    mime "Kinar Applications" "application/vnd.kinar" ".kne",
    mime "Kodak Storyshare" "application/vnd.kodak-descriptor" ".sse",
    mime "Laser App Enterprise" "application/vnd.las.las+xml" ".lasxml",
    mime "LaTeX" "application/x-latex" ".latex",
    mime "Life Balance - Desktop Edition"
      "application/vnd.llamagraphics.life-balance.desktop" ".lbd",
    mime "Life Balance - Exchange Format"
      "application/vnd.llamagraphics.life-balance.exchange+xml" ".lbe",
    mime "Lightspeed Audio Lab" "application/vnd.jam" ".jam",
    mime "Lotus 1-2-3" "application/vnd.lotus-1-2-3" ".123",
    mime "Lotus Approach" "application/vnd.lotus-approach" ".apr",
    mime "Lotus Freelance" "application/vnd.lotus-freelance" ".pre",
    mime "Lotus Notes" "application/vnd.lotus-notes" ".nsf",
    mime "Lotus Organizer" "application/vnd.lotus-organizer" ".org",
    mime "Lotus Screencam" "application/vnd.lotus-screencam" ".scm",
    mime "Lotus Wordpro" "application/vnd.lotus-wordpro" ".lwp",
    mime "Lucent Voice" "audio/vnd.lucent.voice" ".lvp",
    mime "M3U (Multimedia Playlist)" "audio/x-mpegurl" ".m3u",
    mime "M4v" "video/x-m4v" ".m4v",
    mime "Macintosh BinHex 4.0" "application/mac-binhex40" ".hqx",
    mime "MacPorts Port System" "application/vnd.macports.portpkg" ".portpkg",
    mime "MapGuide DBXML" "application/vnd.osgeo.mapguide.package" ".mgp",
    mime "MARC Formats" "application/marc" ".mrc",
    mime "MARC21 XML Schema" "application/marcxml+xml" ".mrcx",
    mime "Material Exchange Format" "application/mxf" ".mxf",
    mime "Mathematica Notebook Player" "application/vnd.wolfram.player" ".nbp",
    mime "Mathematica Notebooks" "application/mathematica" ".ma",
    mime "Mathematical Markup Language" "application/mathml+xml" ".mathml",
    mime "Mbox database files" "application/mbox" ".mbox",
    mime "MedCalc" "application/vnd.medcalcdata" ".mc1",
    mime "Media Server Control Markup Language" "application/mediaservercontrol+xml" ".mscml",
    mime "MediaRemote" "application/vnd.mediastation.cdkey" ".cdkey",
    mime "Medical Waveform Encoding Format" "application/vnd.mfer" ".mwf",
    mime "Melody Format for Mobile Platform" "application/vnd.mfmp" ".mfm",
    mime "Mesh Data Type" "model/mesh" ".msh",
    mime "Metadata Authority Description Schema" "application/mads+xml" ".mads",
    mime "Metadata Encoding and Transmission Standard" "application/mets+xml" ".mets",
    mime "Metadata Object Description Schema" "application/mods+xml" ".mods",
    mime "Metalink" "application/metalink4+xml" ".meta4",
    mime "Micosoft PowerPoint - Macro-Enabled Template File"
      "application/vnd.ms-powerpoint.template.macroenabled.12" ".potm",
    mime "Micosoft Word - Macro-Enabled Document"
      "application/vnd.ms-word.document.macroenabled.12" ".docm",
    mime "Micosoft Word - Macro-Enabled Template"
      "application/vnd.ms-word.template.macroenabled.12" ".dotm",
    mime "Micro CADAM Helix D&D" "application/vnd.mcd" ".mcd",
    mime "Micrografx" "application/vnd.micrografx.flo" ".flo",
    mime "Micrografx iGrafx Professional" "application/vnd.micrografx.igx" ".igx",
    mime "MICROSEC e-Szign¢" "application/vnd.eszigno3+xml" ".es3",
    mime "Microsoft Access" "application/x-msaccess" ".mdb",
    mime "Microsoft Advanced Systems Format (ASF)" "video/x-ms-asf" ".asf",
    mime "Microsoft Application" "application/x-msdownload" ".exe",
    mime "Microsoft Artgalry" "application/vnd.ms-artgalry" ".cil",
    mime "Microsoft Cabinet File" "application/vnd.ms-cab-compressed" ".cab",
    mime "Microsoft Class Server" "application/vnd.ms-ims" ".ims",
    mime "Microsoft ClickOnce" "application/x-ms-application" ".application",
    mime "Microsoft Clipboard Clip" "application/x-msclip" ".clp",
    mime "Microsoft Document Imaging Format" "image/vnd.ms-modi" ".mdi",
    mime "Microsoft Embedded OpenType" "application/vnd.ms-fontobject" ".eot",
    mime "Microsoft Excel" "application/vnd.ms-excel" ".xls",
    mime "Microsoft Excel - Add-In File" "application/vnd.ms-excel.addin.macroenabled.12" ".xlam",
    mime "Microsoft Excel - Binary Workbook"
      "application/vnd.ms-excel.sheet.binary.macroenabled.12" ".xlsb",
    mime "Microsoft Excel - Macro-Enabled Template File"
      "application/vnd.ms-excel.template.macroenabled.12" ".xltm",
    mime "Microsoft Excel - Macro-Enabled Workbook"
      "application/vnd.ms-excel.sheet.macroenabled.12" ".xlsm",
    mime "Microsoft Html Help File" "application/vnd.ms-htmlhelp" ".chm",
    mime "Microsoft Information Card" "application/x-mscardfile" ".crd",
    mime "Microsoft Learning Resource Module" "application/vnd.ms-lrm" ".lrm",
    mime "Microsoft MediaView" "application/x-msmediaview" ".mvb",
    mime "Microsoft Money" "application/x-msmoney" ".mny",
    mime "Microsoft Office - OOXML - Presentation"
      "application/vnd.openxmlformats-officedocument.presentationml.presentation" ".pptx",
    mime "Microsoft Office - OOXML - Presentation (Slide)"
      "application/vnd.openxmlformats-officedocument.presentationml.slide" ".sldx",
    mime "Microsoft Office - OOXML - Presentation (Slideshow)"
      "application/vnd.openxmlformats-officedocument.presentationml.slideshow" ".ppsx",
    mime "Microsoft Office - OOXML - Presentation Template"
      "application/vnd.openxmlformats-officedocument.presentationml.template" ".potx",
    mime "Microsoft Office - OOXML - Spreadsheet"
      "application/vnd.openxmlformats-officedocument.spreadsheetml.sheet" ".xlsx",
    mime "Microsoft Office - OOXML - Spreadsheet Teplate"
      "application/vnd.openxmlformats-officedocument.spreadsheetml.template" ".xltx",
    mime "Microsoft Office - OOXML - Word Document"
      "application/vnd.openxmlformats-officedocument.wordprocessingml.document" ".docx",
    mime "Microsoft Office - OOXML - Word Document Template"
      "application/vnd.openxmlformats-officedocument.wordprocessingml.template" ".dotx",
    mime "Microsoft Office Binder" "application/x-msbinder" ".obd",
    mime "Microsoft Office System Release Theme" "application/vnd.ms-officetheme" ".thmx",
    mime "Microsoft OneNote" "application/onenote" ".onetoc",
    mime "Microsoft PlayReady Ecosystem" "audio/vnd.ms-playready.media.pya" ".pya",
    mime "Microsoft PlayReady Ecosystem Video" "video/vnd.ms-playready.media.pyv" ".pyv",
    mime "Microsoft PowerPoint" "application/vnd.ms-powerpoint" ".ppt",
    mime "Microsoft PowerPoint - Add-in file"
      "application/vnd.ms-powerpoint.addin.macroenabled.12" ".ppam",
    mime "Microsoft PowerPoint - Macro-Enabled Open XML Slide"
      "application/vnd.ms-powerpoint.slide.macroenabled.12" ".sldm",
    mime "Microsoft PowerPoint - Macro-Enabled Presentation File"
      "application/vnd.ms-powerpoint.presentation.macroenabled.12" ".pptm",
    mime "Microsoft PowerPoint - Macro-Enabled Slide Show File"
      "application/vnd.ms-powerpoint.slideshow.macroenabled.12" ".ppsm",
    mime "Microsoft Project" "application/vnd.ms-project" ".mpp",
    mime "Microsoft Publisher" "application/x-mspublisher" ".pub",
    mime "Microsoft Schedule+" "application/x-msschedule" ".scd",
    mime "Microsoft Silverlight" "application/x-silverlight-app" ".xap",
    mime "Microsoft Trust UI Provider - Certificate Trust Link" "application/vnd.ms-pki.stl" ".stl",
    mime "Microsoft Trust UI Provider - Security Catalog" "application/vnd.ms-pki.seccat" ".cat",
    mime "Microsoft Visio" "application/vnd.visio" ".vsd",
    mime "Microsoft Windows Media" "video/x-ms-wm" ".wm",
    mime "Microsoft Windows Media Audio" "audio/x-ms-wma" ".wma",
    mime "Microsoft Windows Media Audio Redirector" "audio/x-ms-wax" ".wax",
    mime "Microsoft Windows Media Audio/Video Playlist" "video/x-ms-wmx" ".wmx",
    mime "Microsoft Windows Media Player Download Package" "application/x-ms-wmd" ".wmd",
    mime "Microsoft Windows Media Player Playlist" "application/vnd.ms-wpl" ".wpl",
    mime "Microsoft Windows Media Player Skin Package" "application/x-ms-wmz" ".wmz",
    mime "Microsoft Windows Media Video" "video/x-ms-wmv" ".wmv",
    mime "Microsoft Windows Media Video Playlist" "video/x-ms-wvx" ".wvx",
    mime "Microsoft Windows Metafile" "application/x-msmetafile" ".wmf",
    mime "Microsoft Windows Terminal Services" "application/x-msterminal" ".trm",
    mime "Microsoft Word" "application/msword" ".doc",
    mime "Microsoft Wordpad" "application/x-mswrite" ".wri",
    mime "Microsoft Works" "application/vnd.ms-works" ".wps",
    mime "Microsoft XAML Browser Application" "application/x-ms-xbap" ".xbap",
    mime "Microsoft XML Paper Specification" "application/vnd.ms-xpsdocument" ".xps",
    mime "MIDI - Musical Instrument Digital Interface" "audio/midi" ".mid",
    mime "MiniPay" "application/vnd.ibm.minipay" ".mpy",
    mime "MO:DCA-P" "application/vnd.ibm.modcap" ".afp",
    mime "Mobile Information Device Profile" "application/vnd.jcp.javame.midlet-rms" ".rms",
    mime "MobileTV" "application/vnd.tmobile-livetv" ".tmo",
    mime "Mobipocket" "application/x-mobipocket-ebook" ".prc",
    mime "Mobius Management Systems - Basket file" "application/vnd.mobius.mbk" ".mbk",
    mime "Mobius Management Systems - Distribution Database" "application/vnd.mobius.dis" ".dis",
    mime "Mobius Management Systems - Policy Definition Language File"
      "application/vnd.mobius.plc" ".plc",
    mime "Mobius Management Systems - Query File" "application/vnd.mobius.mqy" ".mqy",
    mime "Mobius Management Systems - Script Language" "application/vnd.mobius.msl" ".msl",
    mime "Mobius Management Systems - Topic Index File" "application/vnd.mobius.txf" ".txf",
    mime "Mobius Management Systems - UniversalArchive" "application/vnd.mobius.daf" ".daf",
    mime "mod_fly / fly.cgi" "text/vnd.fly" ".fly",
    mime "Mophun Certificate" "application/vnd.mophun.certificate" ".mpc",
    mime "Mophun VM" "application/vnd.mophun.application" ".mpn",
    mime "Motion JPEG 2000" "video/mj2" ".mj2",
    mime "MPEG Audio" "audio/mpeg" ".mpga",
    mime "MPEG Url" "video/vnd.mpegurl" ".mxu",
    mime "MPEG Video" "video/mpeg" ".mpeg",
    mime "MPEG-21" "application/mp21" ".m21",
    mime "MPEG-4 Audio" "audio/mp4" ".mp4a",
    mime "MPEG-4 Video" "video/mp4" ".mp4",
    mime "MPEG4" "application/mp4" ".mp4",
    mime "Multimedia Playlist Unicode" "application/vnd.apple.mpegurl" ".m3u8",
    mime "MUsical Score Interpreted Code Invented for the ASCII designation of Notation"
      "application/vnd.musician" ".mus",
    mime "Muvee Automatic Video Editing" "application/vnd.muvee.style" ".msty",
    mime "MXML" "application/xv+xml" ".mxml",
    mime "N-Gage Game Data" "application/vnd.nokia.n-gage.data" ".ngdat",
    mime "N-Gage Game Installer" "application/vnd.nokia.n-gage.symbian.install" ".n-gage",
    mime "Navigation Control file for XML (for ePub)" "application/x-dtbncx+xml" ".ncx",
    mime "Network Common Data Form (NetCDF)" "application/x-netcdf" ".nc",
    mime "neuroLanguage" "application/vnd.neurolanguage.nlu" ".nlu",
    mime "New Moon Liftoff/DNA" "application/vnd.dna" ".dna",
    mime "NobleNet Directory" "application/vnd.noblenet-directory" ".nnd",
    mime "NobleNet Sealer" "application/vnd.noblenet-sealer" ".nns",
    mime "NobleNet Web" "application/vnd.noblenet-web" ".nnw",
    mime "Nokia Radio Application - Preset" "application/vnd.nokia.radio-preset" ".rpst",
    mime "Nokia Radio Application - Preset" "application/vnd.nokia.radio-presets" ".rpss",
    mime "Notation3" "text/n3" ".n3",
    mime "Novadigm's RADIA and EDM products" "application/vnd.novadigm.edm" ".edm",
    mime "Novadigm's RADIA and EDM products" "application/vnd.novadigm.edx" ".edx",
    mime "Novadigm's RADIA and EDM products" "application/vnd.novadigm.ext" ".ext",
    mime "NpGraphIt" "application/vnd.flographit" ".gph",
    mime "Nuera ECELP 4800" "audio/vnd.nuera.ecelp4800" ".ecelp4800",
    mime "Nuera ECELP 7470" "audio/vnd.nuera.ecelp7470" ".ecelp7470",
    mime "Nuera ECELP 9600" "audio/vnd.nuera.ecelp9600" ".ecelp9600",
    mime "Office Document Architecture" "application/oda" ".oda",
    mime "Ogg" "application/ogg" ".ogx",
    mime "Ogg Audio" "audio/ogg" ".oga",
    mime "Ogg Video" "video/ogg" ".ogv",
    mime "OMA Download Agents" "application/vnd.oma.dd2+xml" ".dd2",
    mime "Open Document Text Web" "application/vnd.oasis.opendocument.text-web" ".oth",
    mime "Open eBook Publication Structure" "application/oebps-package+xml" ".opf",
    mime "Open Financial Exchange" "application/vnd.intu.qbo" ".qbo",
    mime "Open Office Extension" "application/vnd.openofficeorg.extension" ".oxt",
    mime "Open Score Format" "application/vnd.yamaha.openscoreformat" ".osf",
    mime "Open Web Media Project - Audio" "audio/webm" ".weba",
    mime "Open Web Media Project - Video" "video/webm" ".webm",
    mime "OpenDocument Chart" "application/vnd.oasis.opendocument.chart" ".odc",
    mime "OpenDocument Chart Template" "application/vnd.oasis.opendocument.chart-template" ".otc",
    mime "OpenDocument Database" "application/vnd.oasis.opendocument.database" ".odb",
    mime "OpenDocument Formula" "application/vnd.oasis.opendocument.formula" ".odf",
    mime "OpenDocument Formula Template"
      "application/vnd.oasis.opendocument.formula-template" ".odft",
    mime "OpenDocument Graphics" "application/vnd.oasis.opendocument.graphics" ".odg",
    mime "OpenDocument Graphics Template"
      "application/vnd.oasis.opendocument.graphics-template" ".otg",
    mime "OpenDocument Image" "application/vnd.oasis.opendocument.image" ".odi",
    mime "OpenDocument Image Template" "application/vnd.oasis.opendocument.image-template" ".oti",
    mime "OpenDocument Presentation" "application/vnd.oasis.opendocument.presentation" ".odp",
    mime "OpenDocument Presentation Template"
      "application/vnd.oasis.opendocument.presentation-template" ".otp",
    mime "OpenDocument Spreadsheet" "application/vnd.oasis.opendocument.spreadsheet" ".ods",
    mime "OpenDocument Spreadsheet Template"
      "application/vnd.oasis.opendocument.spreadsheet-template" ".ots",
    mime "OpenDocument Text" "application/vnd.oasis.opendocument.text" ".odt",
    mime "OpenDocument Text Master" "application/vnd.oasis.opendocument.text-master" ".odm",
    mime "OpenDocument Text Template" "application/vnd.oasis.opendocument.text-template" ".ott",
    mime "OpenGL Textures (KTX)" "image/ktx" ".ktx",
    mime "OpenOffice - Calc (Spreadsheet)" "application/vnd.sun.xml.calc" ".sxc",
    mime "OpenOffice - Calc Template (Spreadsheet)" "application/vnd.sun.xml.calc.template" ".stc",
    mime "OpenOffice - Draw (Graphics)" "application/vnd.sun.xml.draw" ".sxd",
    mime "OpenOffice - Draw Template (Graphics)" "application/vnd.sun.xml.draw.template" ".std",
    mime "OpenOffice - Impress (Presentation)" "application/vnd.sun.xml.impress" ".sxi",
    mime "OpenOffice - Impress Template (Presentation)"
      "application/vnd.sun.xml.impress.template" ".sti",
    mime "OpenOffice - Math (Formula)" "application/vnd.sun.xml.math" ".sxm",
    mime "OpenOffice - Writer (Text - HTML)" "application/vnd.sun.xml.writer" ".sxw",
    mime "OpenOffice - Writer (Text - HTML)" "application/vnd.sun.xml.writer.global" ".sxg",
    mime "OpenOffice - Writer Template (Text - HTML)"
      "application/vnd.sun.xml.writer.template" ".stw",
    mime "OpenType Font File" "application/x-font-otf" ".otf",
    mime "OSFPVG" "application/vnd.yamaha.openscoreformat.osfpvg+xml" ".osfpvg",
    mime "OSGi Deployment Package" "application/vnd.osgi.dp" ".dp",
    mime "PalmOS Data" "application/vnd.palm" ".pdb",
    mime "Pascal Source File" "text/x-pascal" ".p",
    mime "PawaaFILE" "application/vnd.pawaafile" ".paw",
    mime "PCL 6 Enhanced (Formely PCL XL)" "application/vnd.hp-pclxl" ".pclxl",
    mime "Pcsel eFIF File" "application/vnd.picsel" ".efif",
    mime "PCX Image" "image/x-pcx" ".pcx",
    mime "Photoshop Document" "image/vnd.adobe.photoshop" ".psd",
    mime "PICSRules" "application/pics-rules" ".prf",
    mime "PICT Image" "image/x-pict" ".pic",
    mime "pIRCh" "application/x-chat" ".chat",
    mime "PKCS #10 - Certification Request Standard" "application/pkcs10" ".p10",
    mime "PKCS #12 - Personal Information Exchange Syntax Standard" "application/x-pkcs12" ".p12",
    mime "PKCS #7 - Cryptographic Message Syntax Standard" "application/pkcs7-mime" ".p7m",
    mime "PKCS #7 - Cryptographic Message Syntax Standard" "application/pkcs7-signature" ".p7s",
    mime "PKCS #7 - Cryptographic Message Syntax Standard (Certificate Request Response)"
      "application/x-pkcs7-certreqresp" ".p7r",
    mime "PKCS #7 - Cryptographic Message Syntax Standard (Certificates)"
      "application/x-pkcs7-certificates" ".p7b",
    mime "PKCS #8 - Private-Key Information Syntax Standard" "application/pkcs8" ".p8",
    mime "PocketLearn Viewers" "application/vnd.pocketlearn" ".plf",
    mime "Portable Anymap Image" "image/x-portable-anymap" ".pnm",
    mime "Portable Bitmap Format" "image/x-portable-bitmap" ".pbm",
    mime "Portable Compiled Format" "application/x-font-pcf" ".pcf",
    mime "Portable Font Resource" "application/font-tdpfr" ".pfr",
    mime "Portable Game Notation (Chess Games)" "application/x-chess-pgn" ".pgn",
    mime "Portable Graymap Format" "image/x-portable-graymap" ".pgm",
    mime "Portable Network Graphics (PNG)" "image/png" ".png",
    mime "Portable Pixmap Format" "image/x-portable-pixmap" ".ppm",
    mime "Portable Symmetric Key Container" "application/pskc+xml" ".pskcxml",
    mime "PosML" "application/vnd.ctc-posml" ".pml",
    mime "PostScript" "application/postscript" ".ai",
    mime "PostScript Fonts" "application/x-font-type1" ".pfa",
    mime "PowerBuilder" "application/vnd.powerbuilder6" ".pbd",
    mime "Pretty Good Privacy" "application/pgp-encrypted" "",
    mime "Pretty Good Privacy - Signature" "application/pgp-signature" ".pgp",
    mime "Preview Systems ZipLock/VBox" "application/vnd.previewsystems.box" ".box",
    mime "Princeton Video Image" "application/vnd.pvi.ptid1" ".ptid",
    mime "Pronunciation Lexicon Specification" "application/pls+xml" ".pls",
    mime "Proprietary P&G Standard Reporting System" "application/vnd.pg.format" ".str",
    mime "Proprietary P&G Standard Reporting System" "application/vnd.pg.osasli" ".ei6",
    mime "PRS Lines Tag" "text/prs.lines.tag" ".dsc",
    mime "PSF Fonts" "application/x-font-linux-psf" ".psf",
    mime "PubliShare Objects" "application/vnd.publishare-delta-tree" ".qps",
    mime "Qualcomm's Plaza Mobile Internet" "application/vnd.pmi.widget" ".wg",
    mime "QuarkXpress" "application/vnd.quark.quarkxpress" ".qxd",
    mime "QUASS Stream Player" "application/vnd.epson.esf" ".esf",
    mime "QUASS Stream Player" "application/vnd.epson.msf" ".msf",
    mime "QUASS Stream Player" "application/vnd.epson.ssf" ".ssf",
    mime "QuickAnime Player" "application/vnd.epson.quickanime" ".qam",
    mime "Quicken" "application/vnd.intu.qfx" ".qfx",
    mime "Quicktime Video" "video/quicktime" ".qt",
    mime "RAR Archive" "application/x-rar-compressed" ".rar",
    mime "Real Audio Sound" "audio/x-pn-realaudio" ".ram",
    mime "Real Audio Sound" "audio/x-pn-realaudio-plugin" ".rmp",
    mime "Really Simple Discovery" "application/rsd+xml" ".rsd",
    mime "RealMedia" "application/vnd.rn-realmedia" ".rm",
    mime "RealVNC" "application/vnd.realvnc.bed" ".bed",
    mime "Recordare Applications" "application/vnd.recordare.musicxml" ".mxl",
    mime "Recordare Applications" "application/vnd.recordare.musicxml+xml" ".musicxml",
    mime "Relax NG Compact Syntax" "application/relax-ng-compact-syntax" ".rnc",
    mime "RemoteDocs R-Viewer" "application/vnd.data-vision.rdz" ".rdz",
    mime "Resource Description Framework" "application/rdf+xml" ".rdf",
    mime "RetroPlatform Player" "application/vnd.cloanto.rp9" ".rp9",
    mime "RhymBox" "application/vnd.jisp" ".jisp",
    mime "Rich Text Format" "application/rtf" ".rtf",
    mime "Rich Text Format (RTF)" "text/richtext" ".rtx",
    mime "ROUTE 66 Location Based Services" "application/vnd.route66.link66+xml" ".link66",
    mime "RSS - Really Simple Syndication" "application/rss+xml" ".rss, .xml",
    mime "S Hexdump Format" "application/shf+xml" ".shf",
    mime "SailingTracker" "application/vnd.sailingtracker.track" ".st",
    mime "Scalable Vector Graphics (SVG)" "image/svg+xml" ".svg",
    mime "ScheduleUs" "application/vnd.sus-calendar" ".sus",
    mime "Search/Retrieve via URL Response Format" "application/sru+xml" ".sru",
    mime "Secure Electronic Transaction - Payment" "application/set-payment-initiation" ".setpay",
    mime "Secure Electronic Transaction - Registration"
      "application/set-registration-initiation" ".setreg",
    mime "Secured eMail" "application/vnd.sema" ".sema",
    mime "Secured eMail" "application/vnd.semd" ".semd",
    mime "Secured eMail" "application/vnd.semf" ".semf",
    mime "SeeMail" "application/vnd.seemail" ".see",
    mime "Server Normal Format" "application/x-font-snf" ".snf",
    mime "Server-Based Certificate Validation Protocol - Validation Policies - Request"
      "application/scvp-vp-request" ".spq",
    mime "Server-Based Certificate Validation Protocol - Validation Policies - Response"
      "application/scvp-vp-response" ".spp",
    mime "Server-Based Certificate Validation Protocol - Validation Request"
      "application/scvp-cv-request" ".scq",
    mime "Server-Based Certificate Validation Protocol - Validation Response"
      "application/scvp-cv-response" ".scs",
    mime "Session Description Protocol" "application/sdp" ".sdp",
    mime "Setext" "text/x-setext" ".etx",
    mime "SGI Movie" "video/x-sgi-movie" ".movie",
    mime "Shana Informed Filler" "application/vnd.shana.informed.formdata" ".ifm",
    mime "Shana Informed Filler" "application/vnd.shana.informed.formtemplate" ".itp",
    mime "Shana Informed Filler" "application/vnd.shana.informed.interchange" ".iif",
    mime "Shana Informed Filler" "application/vnd.shana.informed.package" ".ipk",
    mime "Sharing Transaction Fraud Data" "application/thraud+xml" ".tfi",
    mime "Shell Archive" "application/x-shar" ".shar",
    mime "Silicon Graphics RGB Bitmap" "image/x-rgb" ".rgb",
    mime "SimpleAnimeLite Player" "application/vnd.epson.salt" ".slt",
    mime "Simply Accounting" "application/vnd.accpac.simply.aso" ".aso",
    mime "Simply Accounting - Data Import" "application/vnd.accpac.simply.imp" ".imp",
    mime "SimTech MindMapper" "application/vnd.simtech-mindmapper" ".twd",
    mime "Sixth Floor Media - CommonSpace" "application/vnd.commonspace" ".csp",
    mime "SMAF Audio" "application/vnd.yamaha.smaf-audio" ".saf",
    mime "SMAF File" "application/vnd.smaf" ".mmf",
    mime "SMAF Phrase" "application/vnd.yamaha.smaf-phrase" ".spf",
    mime "SMART Technologies Apps" "application/vnd.smart.teacher" ".teacher",
    mime "SourceView Document" "application/vnd.svd" ".svd",
    mime "SPARQL - Query" "application/sparql-query" ".rq",
    mime "SPARQL - Results" "application/sparql-results+xml" ".srx",
    mime "Speech Recognition Grammar Specification" "application/srgs" ".gram",
    mime "Speech Recognition Grammar Specification - XML" "application/srgs+xml" ".grxml",
    mime "Speech Synthesis Markup Language" "application/ssml+xml" ".ssml",
    mime "SSEYO Koan Play File" "application/vnd.koan" ".skp",
    mime "Standard Generalized Markup Language (SGML)" "text/sgml" ".sgml",
    mime "StarOffice - Calc" "application/vnd.stardivision.calc" ".sdc",
    mime "StarOffice - Draw" "application/vnd.stardivision.draw" ".sda",
    mime "StarOffice - Impress" "application/vnd.stardivision.impress" ".sdd",
    mime "StarOffice - Math" "application/vnd.stardivision.math" ".smf",
    mime "StarOffice - Writer" "application/vnd.stardivision.writer" ".sdw",
    mime "StarOffice - Writer (Global)" "application/vnd.stardivision.writer-global" ".sgl",
    mime "StepMania" "application/vnd.stepmania.stepchart" ".sm",
    mime "Stuffit Archive" "application/x-stuffit" ".sit",
    mime "Stuffit Archive" "application/x-stuffitx" ".sitx",
    mime "SudokuMagic" "application/vnd.solent.sdkm+xml" ".sdkm",
    mime "Sugar Linux Application Bundle" "application/vnd.olpc-sugar" ".xo",
    mime "Sun Audio - Au file format" "audio/basic" ".au",
    mime "SundaHus WQ" "application/vnd.wqd" ".wqd",
    mime "Symbian Install Package" "application/vnd.symbian.install" ".sis",
    mime "Synchronized Multimedia Integration Language" "application/smil+xml" ".smi",
    mime "SyncML" "application/vnd.syncml+xml" ".xsm",
    mime "SyncML - Device Management" "application/vnd.syncml.dm+wbxml" ".bdm",
    mime "SyncML - Device Management" "application/vnd.syncml.dm+xml" ".xdm",
    mime "System V Release 4 CPIO Archive" "application/x-sv4cpio" ".sv4cpio",
    mime "System V Release 4 CPIO Checksum Data" "application/x-sv4crc" ".sv4crc",
    mime "Systems Biology Markup Language" "application/sbml+xml" ".sbml",
    mime "Tab Seperated Values" "text/tab-separated-values" ".tsv",
    mime "Tagged Image File Format" "image/tiff" ".tiff",
    mime "Tao Intent" "application/vnd.tao.intent-module-archive" ".tao",
    mime "Tar File (Tape Archive)" "application/x-tar" ".tar",
    mime "Tcl Script" "application/x-tcl" ".tcl",
    mime "TeX" "application/x-tex" ".tex",
    mime "TeX Font Metric" "application/x-tex-tfm" ".tfm",
    mime "Text Encoding and Interchange" "application/tei+xml" ".tei",
    mime "TIBCO Spotfire" "application/vnd.spotfire.dxp" ".dxp",
    mime "TIBCO Spotfire" "application/vnd.spotfire.sfs" ".sfs",
    mime "Time Stamped Data Envelope" "application/timestamped-data" ".tsd",
    mime "TRI Systems Config" "application/vnd.trid.tpt" ".tpt",
    mime "Triscape Map Explorer" "application/vnd.triscape.mxs" ".mxs",
    mime "troff" "text/troff" ".t",
    mime "True BASIC" "application/vnd.trueapp" ".tra",
    mime "TrueType Font" "application/x-font-ttf" ".ttf",
    mime "Turtle (Terse RDF Triple Language)" "text/turtle" ".ttl",
    mime "UMAJIN" "application/vnd.umajin" ".umj",
    mime "Unique Object Markup Language" "application/vnd.uoml+xml" ".uoml",
    mime "Unity 3d" "application/vnd.unity" ".unityweb",
    mime "Universal Forms Description Language" "application/vnd.ufdl" ".ufd",
    mime "URI Resolution Services" "text/uri-list" ".uri",
    mime "User Interface Quartz - Theme (Symbian)" "application/vnd.uiq.theme" ".utz",
    mime "Ustar (Uniform Standard Tape Archive)" "application/x-ustar" ".ustar",
    mime "UUEncode" "text/x-uuencode" ".uu",
    mime "vCalendar" "text/x-vcalendar" ".vcs",
    mime "vCard" "text/x-vcard" ".vcf",
    mime "Video CD" "application/x-cdlink" ".vcd",
    mime "Viewport+" "application/vnd.vsf" ".vsf",
    mime "Virtual Reality Modeling Language" "model/vrml" ".wrl",
    mime "VirtualCatalog" "application/vnd.vcx" ".vcx",
    mime "Virtue MTS" "model/vnd.mts" ".mts",
    mime "Virtue VTU" "model/vnd.vtu" ".vtu",
    mime "Visionary" "application/vnd.visionary" ".vis",
    mime "Vivo" "video/vnd.vivo" ".viv",
    mime "Voice Browser Call Control" "application/ccxml+xml," ".ccxml",
    mime "VoiceXML" "application/voicexml+xml" ".vxml",
    mime "WAIS Source" "application/x-wais-source" ".src",
    mime "WAP Binary XML (WBXML)" "application/vnd.wap.wbxml" ".wbxml",
    mime "WAP Bitamp (WBMP)" "image/vnd.wap.wbmp" ".wbmp",
    mime "Waveform Audio File Format (WAV)" "audio/x-wav" ".wav",
    mime "Web Distributed Authoring and Versioning" "application/davmount+xml" ".davmount",
    mime "Web Open Font Format" "application/x-font-woff" ".woff",
    mime "Web Services Policy" "application/wspolicy+xml" ".wspolicy",
    mime "WebP Image" "image/webp" ".webp",
    mime "WebTurbo" "application/vnd.webturbo" ".wtb",
    mime "Widget Packaging and XML Configuration" "application/widget" ".wgt",
    mime "WinHelp" "application/winhlp" ".hlp",
    mime "Wireless Markup Language (WML)" "text/vnd.wap.wml" ".wml",
    mime "Wireless Markup Language Script (WMLScript)" "text/vnd.wap.wmlscript" ".wmls",
    mime "WMLScript" "application/vnd.wap.wmlscriptc" ".wmlsc",
    mime "Wordperfect" "application/vnd.wordperfect" ".wpd",
    mime "Worldtalk" "application/vnd.wt.stf" ".stf",
    mime "WSDL - Web Services Description Language" "application/wsdl+xml" ".wsdl",
    mime "X BitMap" "image/x-xbitmap" ".xbm",
    mime "X PixMap" "image/x-xpixmap" ".xpm",
    mime "X Window Dump" "image/x-xwindowdump" ".xwd",
    mime "X.509 Certificate" "application/x-x509-ca-cert" ".der",
    mime "Xfig" "application/x-xfig" ".fig",
    mime "XHTML - The Extensible HyperText Markup Language" "application/xhtml+xml" ".xhtml",
    mime "XML - Extensible Markup Language" "application/xml" ".xml",
    mime "XML Configuration Access Protocol - XCAP Diff" "application/xcap-diff+xml" ".xdf",
    mime "XML Encryption Syntax and Processing" "application/xenc+xml" ".xenc",
    mime "XML Patch Framework" "application/patch-ops-error+xml" ".xer",
    mime "XML Resource Lists" "application/resource-lists+xml" ".rl",
    mime "XML Resource Lists" "application/rls-services+xml" ".rs",
    mime "XML Resource Lists Diff" "application/resource-lists-diff+xml" ".rld",
    mime "XML Transformations" "application/xslt+xml" ".xslt",
    mime "XML-Binary Optimized Packaging" "application/xop+xml" ".xop",
    mime "XPInstall - Mozilla" "application/x-xpinstall" ".xpi",
    mime "XSPF - XML Shareable Playlist Format" "application/xspf+xml" ".xspf",
    mime "XUL - XML User Interface Language" "application/vnd.mozilla.xul+xml" ".xul",
    mime "XYZ File Format" "chemical/x-xyz" ".xyz",
    mime "YAML Ain't Markup Language / Yet Another Markup Language" "text/yaml" ".yaml",
    mime "YANG Data Modeling Language" "application/yang" ".yang",
    mime "YIN (YANG - XML)" "application/yin+xml" ".yin",
    mime "Z.U.L. Geometry" "application/vnd.zul" ".zir",
    mime "Zip Archive" "application/zip" ".zip",
    mime "ZVUE Media Manager" "application/vnd.handheld-entertainment+xml" ".zmm",
    mime "Zzazz Deck" "application/vnd.zzazz.deck+xml" ".zaz",
    ⟨utf8 "Empty", utf8 "application/x-empty", []⟩]

end Mavicona.Extract
